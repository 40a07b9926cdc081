import SyncSwarm.Theorems.Network.Routes
import SyncSwarm.Theorems.Discovery.Freshness
import Mathlib.Data.Fintype.EquivFin

/-! Routes that announces have built are free of loops, as long as nothing was evicted. -/

set_option linter.dupNamespace false

namespace SyncSwarm.Discovery
open Lib Protocol List Option

namespace Network
variable {ι : Type} [DecidableEq ι] {net : Swarm ι} {w u : Network ι} {a : Action ι}

/-- All entries were written by `handleAnnounce`, and none was evicted. --/
structure AnnounceBuilt (w : Network ι) : Prop where
  unevicted : Unevicted w
  announced : ∀ i, ∀ s ∈ (w.nodes i).paths.stored, s.2 = .announced

theorem AnnounceBuilt.before (h : Steps net w a u) (hu : AnnounceBuilt u) : AnnounceBuilt w :=
  ⟨hu.unevicted.before h, fun i s hs => hu.announced i s ((h.histories i).2.subset hs)⟩

omit [DecidableEq ι] in
theorem AnnounceBuilt.not_learns (hu : AnnounceBuilt u) {D : String} (y : ι) (r : ℤ ×ₗ ℕ) :
    ¬Learns net w u D a y r := by
  intro h
  cases h with
  | intro _ _ _ _ _ _ _ _ hstored => exact nomatch hu.announced _ _ hstored

omit [DecidableEq ι] in
theorem hops_lt [Fintype ι] (hcard : Fintype.card ι ≤ 250) (hplaced : AllPlaced net w) {D : String}
    (hcounted : (Network.gradient net w D).Counted depth) {i : ι} {e : PathEntry}
    (he : (w.nodes i).paths.lookup D = some e) :
    e.hops.toNat < 255 := by
  obtain ⟨y, hy⟩ := (hplaced i D e he).owned
  have hdepth : e.hops.toNat < Fintype.card ι := hcounted.depth_lt (entry_gradient.mpr ⟨e, he, hy, rfl⟩)
  omega

/-- In every network of at most 250 honest nodes, whatever was lost, repeated, late or out of order: as long as only
    announces have written the tables and nothing was evicted, the next hops for any destination lead to it, no node is
    met twice, and on the way the entries get better. --/
theorem announced_routes_loop_free [Fintype ι] (hcard : Fintype.card ι ≤ 250) {as : List (Action ι)}
    (hrun : exec (step net) (new net) as = some w) (hbuilt : AnnounceBuilt w) {x : ι} {D : String} {e : PathEntry}
    (he : (w.nodes x).paths.lookup D = some e) : ∃ l d, w.Route net D x e l d ∧ (x :: l ++ [d]).Nodup := by
  have hinv : AllPlaced net w ∧
    (AnnounceBuilt w → ∀ D, (Network.gradient net w D).Sound (fun i => (net.cfg i).selfID = D) (fun _ => True) ∧
      (Network.gradient net w D).Counted depth) := by
    refine exec_keeps (P := fun w => AllPlaced net w ∧ (AnnounceBuilt w → ∀ D,
      (Network.gradient net w D).Sound (fun i => (net.cfg i).selfID = D) (fun _ => True) ∧
        (Network.gradient net w D).Counted depth)) ?_ ?_ hrun
    · intro w a u ⟨hplaced, hw⟩ hstep
      have hsteps := step_cases hstep
      refine ⟨hsteps.allPlaced hplaced, fun hu D => ?_⟩
      have hinv := hw (hu.before hsteps)
      have hanswer : ∀ i e, Answers net w a i e → True ∧ e.hops.toNat < 255 := by
        rintro i e (⟨_, _, _, hlookup, _⟩)
        exact ⟨trivial, hops_lt hcard hplaced (hinv _).2 hlookup⟩
      have hgradient := hsteps.gradient hplaced hu.unevicted (fun _ _ => trivial) hanswer D
      exact ⟨(hinv D).1.step hgradient fun y r hlearns => absurd hlearns (hu.not_learns y r),
        (hinv D).2.step hgradient hu.not_learns⟩
    · refine ⟨allPlaced_new net, fun _ D =>
        ⟨sound_new net D _ _, fun x r y hx => ?_, fun y r hsent => absurd hsent (not_sent_new net D y r)⟩⟩
      rw [entry_new] at hx
      cases hx
  obtain ⟨hplaced, hsound⟩ := hinv
  obtain ⟨hsound, -⟩ := hsound hbuilt D
  obtain ⟨y, hy⟩ := (hplaced x D e he).owned
  obtain ⟨l, d, hroute⟩ := hsound.route (entry_gradient.mpr ⟨e, he, hy, rfl⟩)
  exact ⟨l, d, route_of_gradient hroute he, hroute.nodup hsound⟩

end Network
/-! ### Three nodes -/

namespace Trio

def selfAddr : String := "203.0.113.1:64512"

def selfHash : Bytes := beBytes 32 0x34750f98bd59fcfc946da45aaabe933be154a4b5094e1c4abf42866505f3c97e

def thirdPriv : Bytes := List.replicate 32 2 ++ thirdKey

def peerPriv : Bytes := List.replicate 32 3 ++ peerKey

def forwarded : AnnouncePayload := { peerAnnounce with hopCount := 1 }

def forwardedJson : Bytes := announceText [49]

def forwardedPacket : SignedPacket where
  id := .copy 32 (beBytes 32 0x14495b9c64729206d96fa7ddaa755f39a0d9bbd11147da25ceeb14ab3f8b39cb)
  type := .announce
  timestamp := start
  sourceNode := thirdID
  destGroup := "ANY"
  payloadSize := 397
  payload := forwardedJson
  signerKey := thirdKey
  signature :=
    beBytes 32 0x85e82323260e5b87d691425f00d2208639aae8e1d818c4e8375db107d39db94a ++
    beBytes 32 0x9b27aabb62493286564b598f27b34a4956d2cedf15f2252edd6beefdad1ee80f

def requestJson : Bytes :=
  beBytes 48 0x7b224465737448617368223a226236326538363766613266333361666536326435643662313634326531363231222c22 ++
  beBytes 22 0x4e6f6e6365223a392c22486f70436f756e74223a307d

def requestPacket : SignedPacket where
  id := .copy 32 (beBytes 32 0xad768ca66a4d563c5948d9d0cb0b13169df31fba7bc98537790acc4989248f81)
  type := .pathRequest
  timestamp := start
  sourceNode := selfID
  destGroup := "ANY"
  payloadSize := 70
  payload := requestJson
  signerKey := config.signPub
  signature :=
    beBytes 32 0x31ec63f57a0c8640ffabaa00e3cab4b3b3a90491b7104294d916a480591af827 ++
    beBytes 32 0x369eee4f898092745dcdccaacd58db8f9b0aab1139a06db4212b1b427addb70b

def replyJson : Bytes := probeText (beBytes 32 0x6236326538363766613266333361666536326435643662313634326531363231)

def replyPacket : SignedPacket where
  id := .copy 32 (beBytes 32 0x16b78e2107167654730034c23457172c9b29f1c96b22e591e0419a0a8c0e956f)
  type := .latencyReply
  timestamp := start
  sourceNode := peerID
  destGroup := "ANY"
  destNode := selfID
  payloadSize := 181
  payload := replyJson
  signerKey := peerKey
  signature :=
    beBytes 32 0xa02dfdd74874992dbdef700eb8f97f0b2c63ffceadedf059cc0aae4c5aac691b ++
    beBytes 32 0xecc8f6af001d0cd56361f66aaf852688aadb7c1c1d745182ecc37eb58a78ad08

def checkHash : Bytes := beBytes 32 0xb56195ce25864ee5953f350582b0989ac7cde974f47acf82757428e03f486742

def replyHash : Bytes := beBytes 32 0xe3339b516a48c6eec1cb531e36869ce78caed0875f62bf8c0251b584e8fe3541

def innerHash : Bytes := beBytes 32 0x990bd4128af3838d47413b624f3d7d946d1c06afba86338b57e13b5edcdcc697

def netEnv : Env :=
  envOf
    [(peerKey, peerAnnounce.signedBytes, announceSignature),
      (peerKey, announcePacket.canonicalBytes, announcePacket.signature),
     (thirdKey, forwardedPacket.canonicalBytes, forwardedPacket.signature),
     (config.signPub, requestPacket.canonicalBytes, requestPacket.signature),
     (config.signPub, checkPacket.canonicalBytes, checkPacket.signature),
       (peerKey, replyPacket.canonicalBytes, replyPacket.signature)]
    [(config.signPub, selfHash), (announceJson ++ startText, announcePacket.id.val),
      (forwardedJson ++ startText, forwardedPacket.id.val),
     (requestJson ++ startText, requestPacket.id.val), (checkJson ++ startText, checkPacket.id.val),
     (replyJson ++ startText, replyPacket.id.val),
       (encodeRouted 16 (marshalBinary checkPacket) ++ startText, checkHash),
     (encodeRouted 16 (marshalBinary replyPacket) ++ startText, replyHash),
       (encodeRouted 16 [1] ++ startText, innerHash)]
    { noJson with
      announce := codecOf [(peerAnnounce, announceJson), (forwarded, forwardedJson)]
      pathRequest := codecOf [(⟨peerID, 9, 0⟩, requestJson)]
      discovery := codecOf
        [({ nodeID := selfID, version := "1.0.0", nonce := 1 }, checkJson),
          ({ nodeID := peerID, version := "1.0.0", nonce := 1 }, replyJson)] }

theorem codecOf_keeps {α : Type} [DecidableEq α] {table : List (α × Bytes)} (hdistinct : (table.map (·.2)).Nodup)
    (hne : [] ∉ table.map (·.2)) {x y : α} (h : (codecOf table).unmarshal ((codecOf table).marshal x) = some y) :
    y = x := by
  obtain ⟨e, he, rfl⟩ := map_eq_some_iff.mp h
  have hmem := mem_of_find?_eq_some he
  have htext : e.2 = (codecOf table).marshal x := by simpa using find?_some he
  simp only [codecOf] at htext
  cases hfind : table.find? (fun e => e.1 = x) with
  | none =>
    rw [hfind] at htext
    exact absurd (mem_map.mpr ⟨e, hmem, htext⟩) hne
  | some e' =>
    rw [hfind] at htext
    rw [inj_on_of_nodup_map hdistinct hmem (mem_of_find?_eq_some hfind) htext]
    simpa using find?_some hfind

instance neZero_three : NeZero 3 := ⟨by decide⟩

def trio (capabilities : List String) : Swarm (Fin 3) where
  env := netEnv
  cfg
    | 0 => config
    | 1 => { config with selfID := thirdID, signPriv := thirdPriv, signPub := thirdKey }
    | 2 => { config with selfID := peerID, signPriv := peerPriv, signPub := peerKey, pubKey := peerPub, port := 4000 }
  capabilities i := if i = 1 then capabilities else []
  start _ := start
  owner addr :=
    if addr = selfAddr then some 0 else if addr = thirdAddr then some 1 else if addr = peerAddr then some 2 else none
  ids := by decide +kernel
  keyed := by decide +kernel
  bound := by decide +kernel
  resolves := by
    intro addr remoteAddr h
    rw [Option.some.inj h]
  named := by decide
  keeps := by
    intro ap ap' _ h
    have hdistinct : (([(peerAnnounce, announceJson), (forwarded, forwardedJson)]).map (·.2)).Nodup := by decide +kernel
    obtain rfl := codecOf_keeps hdistinct (by decide +kernel) h
    exact ⟨rfl, rfl, rfl⟩

end Trio

namespace Network
open Trio

instance [Fintype ι] (w : Network ι) : Decidable (Unevicted w) :=
  inferInstanceAs (Decidable (∀ i, (w.nodes i).paths.evicted = []))

instance [Fintype ι] (w : Network ι) : Decidable (AnnounceBuilt w) :=
  decidable_of_iff (Unevicted w ∧ ∀ i, ∀ s ∈ (w.nodes i).paths.stored, s.2 = .announced)
    ⟨fun h => ⟨h.1, h.2⟩, fun h => ⟨h.unevicted, h.announced⟩⟩

def announcing : List (Action (Fin 3)) :=
  [.act 2 (.announceSelf 7), .deliver 0 1 peerAddr udp 0, .deliver 1 0 thirdAddr udp 0]

theorem announcing_run :
    ∃ w e, exec (step (trio ["relay"])) (new (trio ["relay"])) announcing = some w ∧ AnnounceBuilt w ∧
    (w.nodes 0).paths.lookup peerID = some e := by
  have hrun : ((exec (step (trio ["relay"])) (new (trio ["relay"])) announcing).bind fun w =>
      ((w.nodes 0).paths.lookup peerID).map fun _ => decide (AnnounceBuilt w)) = some true := by decide +kernel
  obtain ⟨w, hw, hpath⟩ := bind_eq_some_iff.mp hrun
  obtain ⟨e, he, hbuilt⟩ := map_eq_some_iff.mp hpath
  exact ⟨w, e, hw, of_decide_eq_true hbuilt, he⟩

theorem announced_routes_loop_free_trio :
    ∃ w e, exec (step (trio ["relay"])) (new (trio ["relay"])) announcing = some w ∧
    (w.nodes 0).paths.lookup peerID = some e ∧ ∃ l d, w.Route (trio ["relay"]) peerID 0 e l d ∧
      (0 :: l ++ [d]).Nodup := by
  obtain ⟨w, e, hw, hbuilt, he⟩ := announcing_run
  exact ⟨w, e, hw, he, announced_routes_loop_free (by decide) hw hbuilt he⟩

end Network
end SyncSwarm.Discovery
