import SyncSwarm.Theorems.Network.LoopFree
import SyncSwarm.Theorems.Discovery.Routed
import SyncSwarm.Lib.Ways

/-! Routes over which packets are forwarded: every node on the way is a transport, unless endpoints answer
    path requests for others. -/

set_option linter.dupNamespace false

namespace SyncSwarm.Discovery
open Lib Protocol List Option

/-- The nodes of the network can be reached: each has an interface and an address. --/
structure Swarm.Wired {ι : Type} (net : Swarm ι) : Prop where
  iface : ∀ i, (net.cfg i).iface.isSome = true
  addressed : ∀ i, ∃ addr remoteAddr, net.owner addr = some i ∧ net.env.net.resolve addr = some remoteAddr

namespace Network
variable {ι : Type} {net : Swarm ι} {w u : Network ι} {a : Action ι}

/-! ### The ways to a destination -/

def transport (net : Swarm ι) (i : ι) : Prop := (net.capabilities i).any (· = "relay") = true

instance (net : Swarm ι) : DecidablePred (transport net) :=
  fun i => inferInstanceAs (Decidable ((net.capabilities i).any _ = true))

def nextHop (net : Swarm ι) (w : Network ι) (D : String) (x : ι) : Option ι :=
  ((w.nodes x).paths.lookup D).bind fun e => net.owner e.nextHop

/-- The next hops for `D` lead from table to table from `x` over the nodes of the list, all transports, to the
    node `d` of that name. --/
abbrev Way (net : Swarm ι) (w : Network ι) (D : String) : ι → List ι → ι → Prop :=
  Lib.Way (w.nextHop net D) (fun i => (net.cfg i).selfID = D) (transport net)

/-- `y` is the destination, or a transport whose tables lead there, not over `i`. --/
abbrev Onward (net : Swarm ι) (w : Network ι) (D : String) : ι → ι → Prop :=
  Lib.Onward (w.nextHop net D) (fun i => (net.cfg i).selfID = D) (transport net)

variable {D : String} {x d : ι} {e : PathEntry} {l : List ι} {y : ι}

theorem nextHop_eq_some :
    w.nextHop net D x = some y ↔ ∃ e, (w.nodes x).paths.lookup D = some e ∧ net.owner e.nextHop = some y :=
  bind_eq_some_iff

theorem nextHop_congr (h : (u.nodes x).paths = (w.nodes x).paths) : u.nextHop net D x = w.nextHop net D x := by
  rw [nextHop, nextHop, h]

theorem nextHop_goal (h : AllPlaced net w) (d : ι) (hself : (net.cfg d).selfID = D) : w.nextHop net D d = none := by
  cases hnext : w.nextHop net D d with
  | none => rfl
  | some y =>
    obtain ⟨e, he, -⟩ := nextHop_eq_some.mp hnext
    exact absurd hself.symm (h d D e he).foreign

theorem Route.way (h : w.Route net D x e l d) (htransport : ∀ m ∈ l, transport net m) : w.Way net D x l d := by
  induction h with
  | last he howner hself => exact .last (nextHop_eq_some.mpr ⟨_, he, howner⟩) hself
  | hop he howner _ _ ih =>
    obtain ⟨hfirst, hrest⟩ := forall_mem_cons.mp htransport
    exact .hop (nextHop_eq_some.mpr ⟨_, he, howner⟩) hfirst (ih hrest)

/-! ### A routed packet on its way -/

def Action.isDelivery : Action ι → Bool
  | .deliver .. => true
  | .act .. => false

variable [DecidableEq ι]

theorem step_deliver {f : Nat} {m : ι × Emit} {addr : String} (srcIface : Interface) (nonce : UInt64)
    (hm : w.frames[f]? = some m) (howner : net.owner addr = some m.1) (hreach : reaches net y m.2 = true) :
    step net w (.deliver f y addr srcIface nonce) =
      some (w.after y ((w.nodes y).receive net.env (net.cfg y) addr srcIface m.2.pkt nonce).1
        ((w.nodes y).receive net.env (net.cfg y) addr srcIface m.2.pkt nonce).2) := by
  simp only [step, hm, bind_some, if_pos (And.intro howner hreach)]
  rfl

theorem getElem?_frames_after (y : ι) (v : Discovery) (m : Emit) :
    (w.after y v [m]).frames[w.frames.length]? = some (y, m) := by
  simp [after]

theorem paths_after {v : Discovery} {emits : List Emit} (h : v.paths = (w.nodes y).paths) (z : ι) :
    ((w.after y v emits).nodes z).paths = (w.nodes z).paths := by
  by_cases hz : z = y
  · rw [hz, nodes_after_self, h]
  · rw [nodes_after_ne hz]

theorem delivers (hwired : net.Wired) {d : ι} {inner : Bytes} (l : List ι) {w : Network ι} {x : ι} {f : Nat}
    {i : Interface} {pkt : SignedPacket} {limit : UInt8} (hplaced : AllPlaced net w) (hway : w.Way net D x l d)
    (he : (w.nodes x).paths.lookup D = some e) (hframe : w.frames[f]? = some (x, .send i e.nextHop pkt))
    (htype : pkt.type = .routed) (hdest : pkt.destNode = D) (hpayload : pkt.payload = encodeRouted limit inner)
    (hlimit : l.length < limit.toNat) (htransport : ∀ y ∈ l, (w.nodes y).isTransport = true)
    (hfresh : ∀ y ∈ l ++ [d], (w.nodes y).routedSeen.get? (hexString pkt.id.val) = none) (hnodup : (l ++ [d]).Nodup) :
    ∃ as u, (∀ a ∈ as, a.isDelivery = true) ∧ exec (step net) w as = some u ∧
      (u.nodes d).delivered = (w.nodes d).delivered ++ [(inner, pkt.sourceNode)] := by
  obtain ⟨addr, remoteAddr, haddr, hresolve⟩ := hwired.addressed x
  induction l generalizing w x e f i pkt limit addr remoteAddr with
  | nil =>
    cases hway with
    | last hnext hself =>
      obtain ⟨e', he', howner⟩ := nextHop_eq_some.mp hnext
      cases he.symm.trans he'
      have hstep := step_deliver (y := d) i 0 hframe haddr (decide_eq_true howner)
      refine ⟨[.deliver f d addr i 0], _, by simp [Action.isDelivery], exec_single.mpr hstep, ?_⟩
      rw [nodes_after_self]
      exact Discovery.receive_delivers hresolve htype (hdest.trans hself.symm)
        (hfresh d (mem_append_right _ mem_cons_self)) hpayload
  | cons y l ih =>
    cases hway with
    | hop hnext _ hway =>
      obtain ⟨e₀, he₀, howner⟩ := nextHop_eq_some.mp hnext
      cases he.symm.trans he₀
      obtain ⟨z, hz⟩ := hway.next_eq
      obtain ⟨e', hlookup, hz⟩ := nextHop_eq_some.mp hz
      have hforeign := (hplaced y D e' hlookup).foreign
      have hhop : e'.nextHop ≠ "" := by
        intro hempty
        rw [hempty, net.named] at hz
        cases hz
      have hone : 1 < limit := by
        rw [UInt8.lt_iff_toNat_lt]
        exact Nat.lt_of_le_of_lt (Nat.le_add_left 1 l.length) hlimit
      obtain ⟨v, i', hreceive, hpaths⟩ := Discovery.receive_forwards i 0 hresolve htype (hdest ▸ hforeign)
        (hfresh y mem_cons_self) hpayload (htransport y mem_cons_self) hone (hdest ▸ hlookup) hhop (hwired.iface y)
      have hstep := step_deliver (y := y) i 0 hframe haddr (decide_eq_true howner)
      rw [Emit.pkt, hreceive] at hstep
      have hother : ∀ z ∈ l ++ [d], z ≠ y := fun z hz hzy => (nodup_cons.mp hnodup).1 (hzy ▸ hz)
      have hshort : l.length < (limit - 1).toNat := by
        rw [UInt8.toNat_sub_of_le _ _ (UInt8.le_of_lt hone)]
        exact Nat.lt_sub_of_add_lt hlimit
      have htransport' : ∀ emits, ∀ z ∈ l, ((w.after y v emits).nodes z).isTransport = true := by
        intro emits z hz
        rw [nodes_after_ne (hother z (mem_append_left _ hz))]
        exact htransport z (mem_cons_of_mem y hz)
      have hfresh' : ∀ emits, ∀ z ∈ l ++ [d],
          ((w.after y v emits).nodes z).routedSeen.get? (hexString pkt.id.val) = none := by
        intro emits z hz
        rw [nodes_after_ne (hother z hz)]
        exact hfresh z (mem_cons_of_mem y hz)
      obtain ⟨addr', remoteAddr', haddr', hresolve'⟩ := hwired.addressed y
      obtain ⟨as, u, has, hrun, hdelivered⟩ := ih ((step_cases hstep).allPlaced hplaced)
        (hway.congr fun z _ => nextHop_congr (paths_after hpaths z))
          ((congrArg (·.lookup D) (paths_after hpaths y)).trans hlookup)
        (getElem?_frames_after _ _ _) htype hdest rfl hshort (htransport' _) (hfresh' _)
          (nodup_cons.mp hnodup).2 addr' remoteAddr'
        haddr' hresolve'
      refine ⟨.deliver f y addr i 0 :: as, u, ?_, exec_cons.mpr ⟨_, hstep, hrun⟩, ?_⟩
      · intro a ha
        rcases mem_cons.mp ha with rfl | ha
        · rfl
        · exact has a ha
      · rw [hdelivered, nodes_after_ne (hother d (mem_append_right _ mem_cons_self))]

/-! ### Conditions -/

/-- Nobody turns relaying on or off. --/
def Fixed (_ : Network ι) : Action ι → Prop
  | .act _ (.setRelay ..) => False
  | _ => True

/-- A path request is answered from the table only by a transport, and only if one hop more can be counted. --/
def TransportsAnswer (net : Swarm ι) (w : Network ι) : Action ι → Prop
  | .deliver f i _ _ _ => ∀ m ∈ w.frames[f]?, m.2.pkt.type = .pathRequest →
      ∀ pr ∈ net.env.json.pathRequest.unmarshal m.2.pkt.payload, ∀ e ∈ (w.nodes i).paths.lookup pr.destHash,
        e.ann.isSome = true →
        (w.nodes i).isTransport = true ∧ e.hops.toNat < 255
  | .act _ _ => True

/-- Whatever a step stores about a destination `D` at a node `i`, from an announce or as a way back, comes from
    a node with `L D i`. --/
def StoredFrom (net : Swarm ι) (L : String → ι → ι → Prop) (w : Network ι) : Action ι → Prop
  | .deliver f i addr srcIface _ => ∀ m ∈ w.frames[f]?, ∀ r ∈ net.env.net.resolve addr,
      (m.2.pkt.type = .announce → ∀ ap ∈ net.env.json.announce.unmarshal m.2.pkt.payload,
        ap.destHash ≠ (net.cfg i).selfID → ap.verifyBound net.env.sigs = true →
        (w.nodes i).paths.Accepts ap.destHash (Discovery.announcedPath (net.cfg i) ap r (w.nodes i).now) →
          L ap.destHash i m.1) ∧
      (m.2.pkt.type = .routedDiscovery → m.2.pkt.destNode = (net.cfg i).selfID →
        ∀ ip ∈ unmarshalBinary (routedInner m.2.pkt.payload), ip.verify net.env.sigs = true →
        (w.nodes i).paths.Accepts (ip.signerID net.env.sigs) (Discovery.reversePath r srcIface ip (w.nodes i).now) →
        L (ip.signerID net.env.sigs) i m.1)
  | .act _ _ => True

omit [DecidableEq ι] in
theorem StoredFrom.mono {L L' : String → ι → ι → Prop} (h : StoredFrom net L w a) (hle : ∀ D i y, L D i y → L' D i y) :
    StoredFrom net L' w a := by
  cases a with
  | deliver f i addr srcIface nonce =>
    intro m hm r hr
    obtain ⟨hannounce, hrouted⟩ := h m hm r hr
    exact ⟨fun htype ap hap hself hbound haccepts => hle _ _ _ (hannounce htype ap hap hself hbound haccepts),
      fun htype hdest ip hip hv haccepts => hle _ _ _ (hrouted htype hdest ip hip hv haccepts)⟩
  | act i b => trivial

/-- Each entry that is stored comes from the destination, or from a transport whose tables lead there, not over
    the node that stores. --/
def LeadsOn (net : Swarm ι) (w : Network ι) (a : Action ι) : Prop := StoredFrom net (w.Onward net) w a

def AsBegun (net : Swarm ι) (w : Network ι) : Prop := ∀ i, (w.nodes i).capabilities = net.capabilities i

omit [DecidableEq ι] in
theorem AsBegun.isTransport (h : AsBegun net w) (i : ι) : (w.nodes i).isTransport = true ↔ transport net i := by
  rw [Discovery.isTransport, h i, transport]

theorem Steps.asBegun (h : Steps net w a u) (hfixed : Fixed w a) (hw : AsBegun net w) : AsBegun net u := by
  intro x
  cases h with
  | @delivered f i addr srcIface nonce m v emits hm howner hstep =>
    by_cases hx : x = i
    · rw [hx, nodes_after_self, Discovery.capabilities_step hstep nofun, hw]
    · rw [nodes_after_ne hx, hw]
  | @acted i b v emits hb hstep =>
    by_cases hx : x = i
    · rw [hx, nodes_after_self, Discovery.capabilities_step hstep, hw]
      rintro on nonce rfl
      exact hfixed
    · rw [nodes_after_ne hx, hw]

omit [DecidableEq ι] in
theorem TransportsAnswer.relays (h : TransportsAnswer net w a) (hw : AsBegun net w) {i : ι}
    (hanswers : Answers net w a i e) :
    transport net i ∧ e.hops.toNat < 255 := by
  cases hanswers with
  | intro hm htype hpr he hann =>
    obtain ⟨htransport, hlt⟩ := h _ hm htype _ hpr e he hann
    exact ⟨(hw.isTransport i).mp htransport, hlt⟩

theorem Steps.nextHop {L : String → ι → ι → Prop} (h : Steps net w a u) (hu : Unevicted u) (ha : StoredFrom net L w a)
    (D : String) (x : ι) :
    u.nextHop net D x = w.nextHop net D x ∨
      (∃ f addr srcIface nonce, a = .deliver f x addr srcIface nonce) ∧ ∃ y, u.nextHop net D x = some y ∧ L D x y := by
  have hkept : (u.nodes x).paths.evicted = (w.nodes x).paths.evicted := (hu x).trans (hu.before h x).symm
  rcases h.charts x with hsame | ⟨f, addr, srcIface, nonce, m, rfl, hm, howner, hcharts⟩
  · exact .inl (nextHop_congr hsame)
  -- the next hop is the one it was, or that of the entry which the frame brings
  have hupdate : ∀ {dest : String} {e : PathEntry} {writer : Writer} {r : String},
      (u.nodes x).paths = ((w.nodes x).paths.update net.env.pathIter dest e writer).1 →
        net.env.net.resolve addr = some r → e.nextHop = r →
      ((w.nodes x).paths.Accepts dest e → L dest x m.1) → u.nextHop net D x = w.nextHop net D x ∨
        (∃ f' addr' srcIface' nonce', Action.deliver f x addr srcIface nonce = .deliver f' x addr' srcIface' nonce') ∧
          ∃ y, u.nextHop net D x = some y ∧ L D x y := by
    rintro dest e writer r hpaths hresolve rfl hL
    rw [Network.nextHop, Network.nextHop, hpaths]
    rw [hpaths] at hkept
    rcases PathTable.lookup_update_of_kept (congrArg (List.count D) hkept) with
      ⟨rfl, haccepts, -, hnew⟩ | hsame | ⟨old, lastSeen, hold, hsame⟩
    · exact .inr ⟨⟨f, addr, srcIface, nonce, rfl⟩, m.1, by rw [hnew]; exact owner_resolved howner hresolve, hL haccepts⟩
    · exact .inl (by rw [hsame])
    · exact .inl (by rw [hsame, hold]; rfl)
  obtain ⟨pt, hpt⟩ : ∃ pt, (u.nodes x).paths = pt := ⟨_, rfl⟩
  rw [hpt] at hcharts
  cases hcharts with
  | same => exact .inl (nextHop_congr hpt)
  | announced hresolve htype hap hself hbound =>
    exact hupdate hpt hresolve rfl ((ha m hm _ hresolve).1 htype _ hap hself hbound)
  | reversed hresolve htype hbrings hv =>
    cases hbrings with
    | straight _ hstraight => exact absurd htype hstraight
    | carried _ hdest hip => exact hupdate hpt hresolve rfl ((ha m hm _ hresolve).2 htype hdest _ hip hv)

theorem Steps.ways (h : Steps net w a u) (hu : Unevicted u) (ha : LeadsOn net w a)
    (hways : ∀ x y, w.nextHop net D x = some y → ∃ l d, w.Way net D x l d) :
    ∀ x y, u.nextHop net D x = some y → ∃ l d, u.Way net D x l d := by
  have hnext := h.nextHop hu ha D
  cases a with
  | deliver f i addr srcIface nonce =>
    refine ways_set (i := i) hways (fun z hz => (hnext z).resolve_right fun hstored => ?_)
      ((hnext i).imp_right And.right)
    obtain ⟨⟨_, _, _, _, heq⟩, -⟩ := hstored
    cases heq
    exact hz rfl
  | act i b =>
    have hsame : u.nextHop net D = w.nextHop net D := funext fun z => (hnext z).resolve_right fun hstored => by
      obtain ⟨⟨_, _, _, _, heq⟩, -⟩ := hstored
      cases heq
    rw [Way, hsame]
    exact hways

/-- If every step is fixed and lets only transports answer, the tables lead over transports as long as only
    announces wrote them. --/
theorem announced_sound {as : List (Action ι)}
    (hC : Along (step net) (fun w a => Fixed w a ∧ TransportsAnswer net w a) (new net) as)
    (hrun : exec (step net) (new net) as = some w) (hbuilt : AnnounceBuilt w) :
    AllPlaced net w ∧ AsBegun net w ∧
      ∀ D, (Network.gradient net w D).Sound (fun i => (net.cfg i).selfID = D) (transport net) := by
  have hinv : AllPlaced net w ∧ AsBegun net w ∧
      (AnnounceBuilt w → ∀ D, (Network.gradient net w D).Sound (fun i => (net.cfg i).selfID = D) (transport net)) := by
    refine exec_keeps_along (P := fun w => AllPlaced net w ∧ AsBegun net w ∧
      (AnnounceBuilt w →
        ∀ D, (Network.gradient net w D).Sound (fun i => (net.cfg i).selfID = D) (transport net))) ?_ ?_ hC hrun
    · rintro w a u ha ⟨hplaced, hbegun, hsound⟩ hstep
      have hsteps := step_cases hstep
      refine ⟨hsteps.allPlaced hplaced, hsteps.asBegun ha.1 hbegun, fun hu D => ?_⟩
      have hgradient :=
        hsteps.gradient hplaced hu.unevicted (fun i => (hbegun.isTransport i).mp) (fun i e => ha.2.relays hbegun) D
      exact (hsound (hu.before hsteps) D).step hgradient fun y r hlearns => absurd hlearns (hu.not_learns y r)
    · exact ⟨allPlaced_new net, fun i => rfl, fun _ D => sound_new net D _ _⟩
  exact ⟨hinv.1, hinv.2.1, hinv.2.2 hbuilt⟩

/-- What `sendRouted` sends. --/
def routedPacket (net : Swarm ι) (w : Network ι) (x : ι) (D : String) (inner : Bytes) (hopLimit : UInt8) :
    SignedPacket :=
  (w.nodes x).newPacket net.env (net.cfg x) .routed (encodeRouted hopLimit inner) "" D

/-- A routed packet of `x` with this limit reaches `d`, if nothing is lost: the frames that carry it arrive one after
    the other, and then `d` has it. --/
def Reaches (net : Swarm ι) (w : Network ι) (x d : ι) (inner : Bytes) (hopLimit : UInt8) : Prop :=
  ∃ as u, (∀ a ∈ as, a.isDelivery = true) ∧
    exec (step net) w (.act x (.sendRouted (net.cfg d).selfID inner hopLimit) :: as) = some u ∧
    (u.nodes d).delivered = (w.nodes d).delivered ++ [(inner, (net.cfg x).selfID)]

/-- No node remembers the packet. --/
def Unseen (w : Network ι) (pkt : SignedPacket) : Prop := ∀ i, (w.nodes i).routedSeen.get? (hexString pkt.id.val) = none

theorem step_sendRouted (inner : Bytes) (hwired : net.Wired) (hplaced : AllPlaced net w) {x : ι}
    (he : (w.nodes x).paths.lookup D = some e) {hopLimit : UInt8} (hpos : hopLimit ≠ 0) :
    ∃ i, step net w (.act x (.sendRouted D inner hopLimit)) =
      some (w.after x (w.nodes x) [.send i e.nextHop (routedPacket net w x D inner hopLimit)]) := by
  obtain ⟨⟨z, hz⟩, -, -⟩ := hplaced x D e he
  have hhop : e.nextHop ≠ "" := by
    intro hempty
    rw [hempty, net.named] at hz
    cases hz
  obtain ⟨i, hi⟩ :=
    Discovery.routeToward_eq (w.nodes x) (routedPacket net w x D inner hopLimit) he hhop (hwired.iface x)
  refine ⟨i, ?_⟩
  have hemits : (w.nodes x).sendRouted net.env (net.cfg x) D inner hopLimit =
      [.send i e.nextHop (routedPacket net w x D inner hopLimit)] := by
    rw [Discovery.sendRouted, Discovery.sendRoutedAs, if_neg hpos]
    exact hi
  rw [← hemits]
  rfl

theorem reaches_of_way (hwired : net.Wired) (hplaced : AllPlaced net w) (hbegun : AsBegun net w)
    (hway : w.Way net D x l d) {inner : Bytes} {hopLimit : UInt8} (hlimit : l.length < hopLimit.toNat)
    (hunseen : w.Unseen (routedPacket net w x D inner hopLimit)) : w.Reaches net x d inner hopLimit := by
  have hpos : hopLimit ≠ 0 := by
    rintro rfl
    exact absurd hlimit (Nat.not_lt_zero _)
  obtain ⟨y, hy⟩ := hway.next_eq
  obtain ⟨e, he, -⟩ := nextHop_eq_some.mp hy
  obtain ⟨i, hstep⟩ := step_sendRouted inner hwired hplaced he hpos
  have hnodes : ∀ emits, (w.after x (w.nodes x) emits).nodes = w.nodes := fun emits => Function.update_eq_self x w.nodes
  have hsame : ∀ emits y, (w.after x (w.nodes x) emits).nodes y = w.nodes y := fun emits y => congrFun (hnodes emits) y
  obtain ⟨as, u, has, hrun, hdelivered⟩ := delivers hwired l ((step_cases hstep).allPlaced hplaced)
    (hway.congr fun y _ => nextHop_congr (congrArg Discovery.paths (hsame _ y))) (by rw [hsame]; exact he)
      (getElem?_frames_after _ _ _)
    rfl rfl rfl hlimit (fun y hy => by rw [hsame]; exact (hbegun.isTransport y).mpr (hway.forall_relays y hy))
    (fun y _ => by rw [hsame]; exact hunseen y) (nodup_cons.mp (hway.nodup (nextHop_goal hplaced))).2
  refine ⟨as, u, has, exec_cons.mpr ⟨_, by rw [hway.ends]; exact hstep, hrun⟩, ?_⟩
  rw [hdelivered, hsame]
  rfl

/-! ### Results -/

/-- In every run in which only transports answer path requests for others, with fixed capabilities: as long as only
    announces have written the tables and nothing was evicted, every node on the way from `x` to `D` is a transport, and
    a routed packet with a greater hop limit reaches `D`. --/
theorem announced_routes_forward [Finite ι] (hwired : net.Wired) {as : List (Action ι)}
    (hfixed : Along (step net) Fixed (new net) as) (hanswer : Along (step net) (TransportsAnswer net) (new net) as)
    (hrun : exec (step net) (new net) as = some w) (hbuilt : AnnounceBuilt w) {x : ι} {D : String} {e : PathEntry}
    (he : (w.nodes x).paths.lookup D = some e) :
    ∃ l d, w.Route net D x e l d ∧ (∀ m ∈ l, (w.nodes m).isTransport = true) ∧
      ∀ inner hopLimit, l.length < hopLimit.toNat → w.Unseen (routedPacket net w x D inner hopLimit) →
        w.Reaches net x d inner hopLimit := by
  obtain ⟨hplaced, hbegun, hsound⟩ := announced_sound (hfixed.and hanswer) hrun hbuilt
  obtain ⟨y, hy⟩ := (hplaced x D e he).owned
  obtain ⟨l, d, hroute⟩ := (hsound D).route (entry_gradient.mpr ⟨e, he, hy, rfl⟩)
  have htables := route_of_gradient hroute he
  exact ⟨l, d, htables, fun m hm => (hbegun.isTransport m).mpr (hroute.forall_relays m hm),
    fun inner hopLimit hlimit hunseen =>
    reaches_of_way hwired hplaced hbegun (htables.way hroute.forall_relays) hlimit hunseen⟩

/-- In every run, with fixed capabilities, in which each entry is stored only if it comes from its destination or
    from a transport whose tables then lead there, not over the node that stores it: as long as nothing was
    evicted, the tables lead from every entry, ways back included, to its destination, meeting no node twice, and a
    routed packet reaches it. --/
theorem ways_back_lead_back (hwired : net.Wired) {as : List (Action ι)} (hfixed : Along (step net) Fixed (new net) as)
    (hleads : Along (step net) (LeadsOn net) (new net) as) (hrun : exec (step net) (new net) as = some w)
    (hkept : Unevicted w) {x : ι} {D : String} {e : PathEntry} (he : (w.nodes x).paths.lookup D = some e) :
    ∃ l d, w.Way net D x l d ∧ (x :: l ++ [d]).Nodup ∧
      ∀ inner hopLimit, l.length < hopLimit.toNat → w.Unseen (routedPacket net w x D inner hopLimit) →
        w.Reaches net x d inner hopLimit := by
  have hinv : AllPlaced net w ∧ AsBegun net w ∧
      (Unevicted w → ∀ x y, w.nextHop net D x = some y → ∃ l d, w.Way net D x l d) := by
    refine exec_keeps_along (P := fun w => AllPlaced net w ∧ AsBegun net w ∧
      (Unevicted w → ∀ x y, w.nextHop net D x = some y → ∃ l d, w.Way net D x l d)) ?_ ?_ (hfixed.and hleads) hrun
    · rintro w a u ha ⟨hplaced, hbegun, hways⟩ hstep
      have hsteps := step_cases hstep
      exact ⟨hsteps.allPlaced hplaced, hsteps.asBegun ha.1 hbegun, fun hu =>
        hsteps.ways hu ha.2 (hways (hu.before hsteps))⟩
    · refine ⟨allPlaced_new net, fun i => rfl, fun _ x y hnext => ?_⟩
      obtain ⟨e, he, -⟩ := nextHop_eq_some.mp hnext
      cases (GoMap.get?_empty D).symm.trans he
  obtain ⟨hplaced, hbegun, hways⟩ := hinv
  obtain ⟨y, hy⟩ := (hplaced x D e he).owned
  obtain ⟨l, d, hway⟩ := hways hkept x y (nextHop_eq_some.mpr ⟨e, he, hy⟩)
  exact ⟨l, d, hway, hway.nodup (nextHop_goal hplaced), fun inner hopLimit hlimit hunseen =>
    reaches_of_way hwired hplaced hbegun hway hlimit hunseen⟩

end Network

/-! ### Three nodes -/

namespace Trio

/-- The first node's announce, one nanosecond before the others begin. --/
def selfAnnounce : AnnouncePayload where
  destHash := selfID
  signKey := config.signPub
  pubKey := []
  mlkemPub := []
  port := 0
  capabilities := []
  relayIDs := []
  timestamp := start - 1
  nonce := 5
  hopCount := 0
  signature :=
    beBytes 32 0x9bfcd8a1186579f604cf9d4b6defb8583628c53cf1e008dfbce2f3a89b9a55d8 ++
    beBytes 32 0x5d3ee952bbaa20a3040b11c65fe1fdedff574d0143d05169b6b2af2431f8a107

def selfJson : Bytes :=
  beBytes 48 0x7b224465737448617368223a223334373530663938626435396663666339343664613435616161626539333362222c22 ++
  beBytes 48 0x5369676e4b6579223a22696f6a6a3358514a385a583955747374504c70646373706e436238646c424962383353494162 ++
  beBytes 48 0x51506231773d222c225075624b6579223a6e756c6c2c224d4c4b454d507562223a6e756c6c2c22506f7274223a302c22 ++
  beBytes 48 0x4361706162696c6974696573223a6e756c6c2c2252656c6179494473223a6e756c6c2c2241707044617461223a6e756c ++
  beBytes 48 0x6c2c2254696d657374616d70223a313736373232353539393939393939393939392c224e6f6e6365223a352c22486f70 ++
  beBytes 48 0x436f756e74223a302c225369676e6174757265223a226d2f7a596f52686c656659457a35314c62652b345744596f7854 ++
  beBytes 48 0x7a7834416a66764f4c7a714a75615664686450756c5375366f676f77514c45635a66346633742f31644e415550515557 ++
  beBytes 16 0x6d327371386b4d66696842773d3d227d

def earlyText : Bytes :=
  beBytes 48 0x323032352d31322d33312032333a35393a35392e393939393939393939202b3030303020555443206d3d2b302e393939 ++
  beBytes 6 0x393939393939

def selfPacket : SignedPacket where
  id := .copy 32 (beBytes 32 0xc8f1f65f9d8f6d7cf9e92368bce32a5d0fd0d362870044041b035249b5c81b18)
  type := .announce
  timestamp := start - 1
  sourceNode := selfID
  destGroup := "ANY"
  payloadSize := 352
  payload := selfJson
  signerKey := config.signPub
  signature :=
    beBytes 32 0x57649f1c0a8ccaa4ae65ce1823eaaacc97b819844831ecc85082e0ff47e3667a ++
    beBytes 32 0xc8254caec1f342955dacd0517a324e3f62d6b5a6c3b1c00ecb9742cd35321d03

def earlyEnv : Env :=
  { netEnv with
    sigs := sigsOf
      [(config.signPub, selfAnnounce.signedBytes, selfAnnounce.signature),
        (config.signPub, selfPacket.canonicalBytes, selfPacket.signature),
       (peerKey, peerAnnounce.signedBytes, announceSignature),
         (peerKey, announcePacket.canonicalBytes, announcePacket.signature),
       (thirdKey, forwardedPacket.canonicalBytes, forwardedPacket.signature),
       (config.signPub, checkPacket.canonicalBytes, checkPacket.signature)]
      [(config.signPub, selfHash), (selfJson ++ earlyText, selfPacket.id.val),
        (announceJson ++ startText, announcePacket.id.val),
       (forwardedJson ++ startText, forwardedPacket.id.val), (checkJson ++ startText, checkPacket.id.val),
       (encodeRouted 16 (marshalBinary checkPacket) ++ startText, checkHash)]
    json := { netEnv.json with
      announce := codecOf [(selfAnnounce, selfJson), (peerAnnounce, announceJson), (forwarded, forwardedJson)] }
    timeText := fun t => if t = start - 1 then earlyText else netEnv.timeText t }

def early : Swarm (Fin 3) :=
  { trio ["relay"] with
    env := earlyEnv
    start := fun i => if i = 0 then start - 1 else start
    bound := by decide +kernel
    resolves := by
      intro addr remoteAddr h
      rw [Option.some.inj h]
    keeps := by
      intro ap ap' _ h
      have hdistinct :
          (([(selfAnnounce, selfJson), (peerAnnounce, announceJson), (forwarded, forwardedJson)]).map (·.2)).Nodup := by
        decide +kernel
      obtain rfl := codecOf_keeps hdistinct (by decide +kernel) h
      exact ⟨rfl, rfl, rfl⟩ }

end Trio

namespace Network
open Trio

instance {ι : Type} (net : Swarm ι) (w : Network ι) : ∀ a, Decidable (TransportsAnswer net w a)
  | .deliver f i _ _ _ => inferInstanceAs (Decidable (∀ m ∈ w.frames[f]?, _ →
      ∀ pr ∈ net.env.json.pathRequest.unmarshal m.2.pkt.payload, ∀ e ∈ (w.nodes i).paths.lookup pr.destHash, _ → _ ∧ _))
  | .act _ _ => isTrue trivial

instance decidableStoredFrom {ι : Type} (net : Swarm ι) (L : String → ι → ι → Prop) [∀ D i y, Decidable (L D i y)]
    (w : Network ι) :
    ∀ a, Decidable (StoredFrom net L w a)
  | .deliver f _ addr _ _ => inferInstanceAs (Decidable (∀ m ∈ w.frames[f]?, ∀ r ∈ net.env.net.resolve addr,
      (_ → ∀ ap ∈ net.env.json.announce.unmarshal m.2.pkt.payload, _ → _ → _ → _) ∧
      (_ → _ → ∀ ip ∈ unmarshalBinary (routedInner m.2.pkt.payload), _ → _ → _)))
  | .act _ _ => isTrue trivial

theorem wired_trio : (trio ["relay"]).Wired where
  iface := by decide
  addressed i := by
    refine ⟨(if i = 0 then selfAddr else if i = 1 then thirdAddr else peerAddr), _, ?_, rfl⟩
    revert i
    decide

theorem announced_routes_forward_trio : ∃ w e, exec (step (trio ["relay"])) (new (trio ["relay"])) announcing = some w ∧
    (w.nodes 0).paths.lookup peerID = some e ∧ ∃ l d, w.Route (trio ["relay"]) peerID 0 e l d ∧
      (∀ m ∈ l, (w.nodes m).isTransport = true) ∧ ∀ inner hopLimit, l.length < hopLimit.toNat →
        w.Unseen (routedPacket (trio ["relay"]) w 0 peerID inner hopLimit) →
          w.Reaches (trio ["relay"]) 0 d inner hopLimit := by
  obtain ⟨w, e, hw, hbuilt, he⟩ := announcing_run
  have hfixed : Along (step (trio ["relay"])) Fixed (new (trio ["relay"])) announcing :=
    ⟨trivial, fun _ _ => ⟨trivial, fun _ _ => ⟨trivial, fun _ _ => trivial⟩⟩⟩
  have hanswer : Along (step (trio ["relay"])) (TransportsAnswer (trio ["relay"]))
      (new (trio ["relay"])) announcing := by decide +kernel
  exact ⟨w, e, hw, he, announced_routes_forward wired_trio hfixed hanswer hw hbuilt he⟩

/-- The third node is an endpoint; it hears the peer's announce and answers the path request of the first. --/
def answering : List (Action (Fin 3)) :=
  [.act 2 (.announceSelf 7), .deliver 0 1 peerAddr udp 0, .act 0 (.requestPath peerID 9), .deliver 1 1 selfAddr udp 0,
   .deliver 2 0 thirdAddr udp 0]

/-- The entry that the first node gets leads over the endpoint, and a packet that it sends there goes no further. --/
theorem answered_by_endpoint : ∃ w e u, exec (step (trio [])) (new (trio [])) answering = some w ∧ AnnounceBuilt w ∧
    w.Route (trio []) peerID 0 e [1] 2 ∧ (w.nodes 1).isTransport = false ∧
    exec (step (trio [])) w [.act 0 (.sendRouted peerID [1] 16), .deliver w.frames.length 1 selfAddr udp 0] = some u ∧
    u.frames.length = w.frames.length + 1 ∧ (u.nodes 2).delivered = [] := by
  have hrun : ((exec (step (trio [])) (new (trio [])) answering).bind fun w =>
    ((w.nodes 0).paths.lookup peerID).bind fun e =>
      ((w.nodes 1).paths.lookup peerID).bind fun e' =>
      (exec (step (trio [])) w
        [.act 0 (.sendRouted peerID [1] 16), .deliver w.frames.length 1 selfAddr udp 0]).map fun u =>
        decide (AnnounceBuilt w ∧ (trio []).owner e.nextHop = some 1 ∧ (trio []).owner e'.nextHop =
          some 2 ∧ e'.Better e ∧
          (w.nodes 1).isTransport = false ∧ u.frames.length = w.frames.length + 1 ∧ (u.nodes 2).delivered = [])) =
            some true := by decide +kernel
  obtain ⟨w, hw, hrun⟩ := bind_eq_some_iff.mp hrun
  obtain ⟨e, he, hrun⟩ := bind_eq_some_iff.mp hrun
  obtain ⟨e', he', hrun⟩ := bind_eq_some_iff.mp hrun
  obtain ⟨u, hu, hfacts⟩ := map_eq_some_iff.mp hrun
  obtain ⟨hbuilt, howner, howner', hbetter, htransport, hframes, hdelivered⟩ := of_decide_eq_true hfacts
  exact ⟨w, e, u, hw, hbuilt, .hop he howner (.last he' howner' rfl) hbetter, htransport, hu, hframes, hdelivered⟩

def bridge : Interface := ⟨"tcp0", .tcpClient, 1200⟩

/-- The first node announces itself, and the third hears it. Later its check of the peer goes over the third node. --/
def checkingBack : List (Action (Fin 3)) :=
  [.act 0 (.announceSelf 5), .deliver 0 1 selfAddr udp 0, .act 0 (.tick 1), .act 2 (.announceSelf 7),
    .deliver 2 1 peerAddr udp 0,
   .deliver 3 0 thirdAddr bridge 0, .act 0 .checkLatencies, .act 0 (.measure 0 true), .deliver 4 1 selfAddr udp 0,
   .deliver 6 2 thirdAddr udp 0]

/-- The destination, or a transport that has it for its next hop. --/
def Beside (net : Swarm (Fin 3)) (w : Network (Fin 3)) (D : String) (i y : Fin 3) : Prop :=
  (net.cfg y).selfID = D ∨ transport net y ∧ i ≠ y ∧ ∃ d ∈ w.nextHop net D y, (net.cfg d).selfID = D

instance (net : Swarm (Fin 3)) (w : Network (Fin 3)) (D : String) (i y : Fin 3) : Decidable (Beside net w D i y) :=
  inferInstanceAs (Decidable (_ ∨ _ ∧ _ ∧ ∃ d ∈ w.nextHop net D y, _))

theorem Beside.onward {net : Swarm (Fin 3)} {w : Network (Fin 3)} {D : String} {i y : Fin 3} (h : Beside net w D i y) :
    w.Onward net D i y := by
  rcases h with hself | ⟨htransport, hne, d, hd, hself⟩
  · exact .inl hself
  · exact onward_of_next htransport hd hself hne

theorem ways_back_lead_back_over :
    ∃ w e, exec (step early) (new early) checkingBack = some w ∧ (w.nodes 2).paths.lookup selfID = some e ∧
    e.ann = none ∧ w.nextHop early selfID 2 = some 1 ∧ ∃ l d, w.Way early selfID 2 l d ∧ (2 :: l ++ [d]).Nodup ∧
      ∀ inner hopLimit, l.length < hopLimit.toNat →
        w.Unseen (routedPacket early w 2 selfID inner hopLimit) → w.Reaches early 2 d inner hopLimit := by
  have hrun : ((exec (step early) (new early) checkingBack).bind fun w => ((w.nodes 2).paths.lookup selfID).map fun e =>
      decide (Unevicted w ∧ e.ann = none ∧ w.nextHop early selfID 2 = some 1)) = some true := by decide +kernel
  obtain ⟨w, hw, hrun⟩ := bind_eq_some_iff.mp hrun
  obtain ⟨e, he, hfacts⟩ := map_eq_some_iff.mp hrun
  obtain ⟨hkept, hann, hnext⟩ := of_decide_eq_true hfacts
  have hwired : early.Wired := ⟨wired_trio.iface, wired_trio.addressed⟩
  have hfixed : Along (step early) Fixed (new early) checkingBack := by
    refine Along.of_forall fun a ha w => ?_
    simp only [checkingBack, mem_cons, not_mem_nil, or_false] at ha
    rcases ha with rfl | rfl | rfl | rfl | rfl | rfl | rfl | rfl | rfl | rfl <;> trivial
  have hbeside : Along (step early) (fun w a => StoredFrom early (Beside early w) w a)
      (new early) checkingBack := by decide +kernel
  exact ⟨w, e, hw, he, hann, hnext, ways_back_lead_back hwired hfixed
    (hbeside.mono fun w a h => h.mono fun _ _ _ => Beside.onward) hw hkept he⟩

def checkingOver : List (Action (Fin 3)) :=
  [.act 2 (.announceSelf 7), .deliver 0 1 peerAddr udp 0, .deliver 1 0 thirdAddr bridge 0, .act 0 .checkLatencies,
    .act 0 (.measure 0 true),
   .deliver 2 1 selfAddr udp 0, .deliver 4 2 thirdAddr udp 0]

theorem way_back_ends : ∃ w e, exec (step (trio ["relay"])) (new (trio ["relay"])) checkingOver = some w ∧
    (w.nodes 2).paths.lookup selfID = some e ∧ e.ann = none ∧ (trio ["relay"]).owner e.nextHop = some 1 ∧
    (w.nodes 1).paths.lookup selfID = none ∧ ∀ l d, ¬w.Way (trio ["relay"]) selfID 2 l d := by
  have hrun : ((exec (step (trio ["relay"])) (new (trio ["relay"])) checkingOver).bind fun w =>
      ((w.nodes 2).paths.lookup selfID).map fun e =>
        decide (e.ann = none ∧ (trio ["relay"]).owner e.nextHop = some 1 ∧ (w.nodes 1).paths.lookup selfID = none)) =
          some true := by decide +kernel
  obtain ⟨w, hw, hrun⟩ := bind_eq_some_iff.mp hrun
  obtain ⟨e, he, hfacts⟩ := map_eq_some_iff.mp hrun
  obtain ⟨hann, howner, hnone⟩ := of_decide_eq_true hfacts
  have hnext : w.nextHop (trio ["relay"]) selfID 2 = some 1 := nextHop_eq_some.mpr ⟨e, he, howner⟩
  have hends : w.nextHop (trio ["relay"]) selfID 1 = none := by rw [nextHop, hnone, bind_none]
  refine ⟨w, e, hw, he, hann, howner, hnone, fun l d hway => ?_⟩
  cases hway with
  | last hd hself =>
    cases hnext.symm.trans hd
    exact absurd hself (by decide)
  | hop hy _ hway =>
    cases hnext.symm.trans hy
    obtain ⟨z, hz⟩ := hway.next_eq
    cases hends.symm.trans hz

end Network
end SyncSwarm.Discovery
