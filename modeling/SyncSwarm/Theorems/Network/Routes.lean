import Mathlib
import SyncSwarm.Theorems.Discovery.Announces
import SyncSwarm.Lib.Gradient

/-! The path tables of a network. For each destination they are a gradient, ranked by the time of the
    announce and then by hops. -/

set_option linter.dupNamespace false

namespace SyncSwarm.Discovery
open Lib Protocol List Option

def rank (originTS : Int) (hops : UInt8) : ℤ ×ₗ ℕ := toLex (-originTS, hops.toNat)

def depth (r : ℤ ×ₗ ℕ) : ℕ := (ofLex r).2

def PathEntry.rank (e : PathEntry) : ℤ ×ₗ ℕ := Discovery.rank e.originTS e.hops

theorem PathEntry.better_iff {e old : PathEntry} : e.Better old ↔ e.rank < old.rank := by
  rw [Better, PathEntry.rank, PathEntry.rank, Discovery.rank, Discovery.rank, Prod.Lex.toLex_lt_toLex,
    UInt8.lt_iff_toNat_lt]
  simp only
  omega

theorem rank_lt_succ (ts : Int) {hops : UInt8} (h : hops.toNat < 255) :
    rank ts hops < rank ts (hops + 1) ∧ depth (rank ts (hops + 1)) = depth (rank ts hops) + 1 := by
  have hsucc : (hops + 1).toNat = hops.toNat + 1 := by
    rw [UInt8.toNat_add]
    exact Nat.mod_eq_of_lt (Nat.add_lt_add_right h 1)
  constructor
  · rw [rank, rank, Prod.Lex.toLex_lt_toLex, hsucc]
    exact .inr ⟨rfl, Nat.lt_succ_self _⟩
  · exact hsucc

namespace Network
variable {ι : Type} {net : Swarm ι} {w u : Network ι} {a : Action ι}

/-! ### Entries -/

/-- What is always true of an entry: its next hop is a node, it is not about the holder, and the announce in it is about
    the destination and of the same time. --/
structure Placed (net : Swarm ι) (i : ι) (D : String) (e : PathEntry) : Prop where
  owned : ∃ y, net.owner e.nextHop = some y
  foreign : D ≠ (net.cfg i).selfID
  ann : ∀ ann, e.ann = some ann → ann.destHash = D ∧ deriveNodeID net.env.sigs ann.signKey = D ∧
    ann.timestamp = e.originTS

def AllPlaced (net : Swarm ι) (w : Network ι) : Prop := ∀ i D e, (w.nodes i).paths.lookup D = some e → Placed net i D e

variable {i : ι} {y : ι} {e : PathEntry} {D : String}

variable {ap : AnnouncePayload} {remoteAddr : String} {now : Int} {dest : String} {writer : Writer} {x : ι}

theorem placed_announced (howner : net.owner remoteAddr = some y)
    (hself : ap.destHash ≠ (net.cfg i).selfID) (hbound : ap.verifyBound net.env.sigs = true) :
    Placed net i ap.destHash (Discovery.announcedPath (net.cfg i) ap remoteAddr now) := by
  simp only [AnnouncePayload.verifyBound, Bool.and_eq_true, decide_eq_true_eq] at hbound
  refine ⟨⟨y, howner⟩, hself, fun ann hann => ?_⟩
  cases hann
  exact ⟨rfl, hbound.1.2, rfl⟩

theorem placed_reversed {ip : SignedPacket} {srcIface : Interface}
    (howner : net.owner remoteAddr = some y) (hself : ip.signerID net.env.sigs ≠ (net.cfg i).selfID) :
    Placed net i (ip.signerID net.env.sigs) (Discovery.reversePath remoteAddr srcIface ip now) :=
  ⟨⟨y, howner⟩, hself, fun _ hann => nomatch hann⟩

theorem Placed.update {pt : PathTable} (h : ∀ D e, pt.lookup D = some e → Placed net i D e) (he : Placed net i dest e) :
    ∀ D e', (pt.update net.env.pathIter dest e writer).1.lookup D = some e' → Placed net i D e' := by
  intro D e' hlookup
  rcases PathTable.lookup_update hlookup with ⟨rfl, rfl, -⟩ | ⟨old, lastSeen, hold, rfl⟩
  · exact he
  · have hplaced := h D old hold
    exact ⟨hplaced.owned, hplaced.foreign, hplaced.ann⟩

theorem owner_resolved {addr remoteAddr : String} (howner : net.owner addr = some y)
    (hresolve : net.env.net.resolve addr = some remoteAddr) : net.owner remoteAddr = some y :=
  (net.resolves addr remoteAddr hresolve).trans howner

/-! ### The gradient of a destination -/

inductive Learns (net : Swarm ι) (w u : Network ι) (D : String) : Action ι → ι → ℤ ×ₗ ℕ → Prop where
  | intro {f : Nat} {i : ι} {addr remoteAddr : String} {srcIface : Interface} {nonce : UInt64} {m : ι × Emit}
    {ip : SignedPacket} :
    w.frames[f]? = some m → net.owner addr = some m.1 → net.env.net.resolve addr = some remoteAddr →
    m.2.pkt.type = .routedDiscovery → Discovery.Brings (net.cfg i) m.2.pkt ip → ip.verify net.env.sigs = true →
    ip.signerID net.env.sigs = D →
      (w.nodes i).paths.Accepts D (Discovery.reversePath remoteAddr srcIface ip (w.nodes i).now) →
    (D, .reversed) ∈ (u.nodes i).paths.stored →
    Learns net w u D (.deliver f i addr srcIface nonce) m.1
      (Discovery.reversePath remoteAddr srcIface ip (w.nodes i).now).rank

inductive Answers (net : Swarm ι) (w : Network ι) : Action ι → ι → PathEntry → Prop where
  | intro {f : Nat} {i : ι} {addr : String} {srcIface : Interface} {nonce : UInt64} {m : ι × Emit}
    {pr : PathRequestPayload}
    {e : PathEntry} : w.frames[f]? = some m → m.2.pkt.type = .pathRequest →
      net.env.json.pathRequest.unmarshal m.2.pkt.payload = some pr →
    (w.nodes i).paths.lookup pr.destHash = some e → e.ann.isSome → Answers net w (.deliver f i addr srcIface nonce) i e

def gradient (net : Swarm ι) (w : Network ι) (D : String) : Gradient ι (ℤ ×ₗ ℕ) where
  entry i := ((w.nodes i).paths.lookup D).bind fun e => (net.owner e.nextHop).map fun y => (e.rank, y)
  sent y r := ∃ m ap, (y, m) ∈ w.frames ∧ m.pkt.type = .announce ∧
    net.env.json.announce.unmarshal m.pkt.payload = some ap ∧
    ap.destHash = D ∧ r = rank ap.timestamp ap.hopCount

theorem entry_gradient {x y : ι} {r : ℤ ×ₗ ℕ} : (gradient net w D).entry x = some (r, y) ↔
    ∃ e, (w.nodes x).paths.lookup D = some e ∧ net.owner e.nextHop = some y ∧ r = e.rank := by
  simp only [gradient, bind_eq_some_iff, map_eq_some_iff, Prod.mk.injEq]
  constructor
  · rintro ⟨e, he, z, hz, hrank, rfl⟩
    exact ⟨e, he, hz, hrank.symm⟩
  · rintro ⟨e, he, hy, rfl⟩
    exact ⟨e, he, y, hy, rfl, rfl⟩

theorem entry_update (net : Swarm ι) (D : String) (hkept : (u.nodes x).paths.evicted = (w.nodes x).paths.evicted)
    (hupdate : (u.nodes x).paths = ((w.nodes x).paths.update net.env.pathIter dest e writer).1) :
    (gradient net u D).entry x = (gradient net w D).entry x ∨
      D = dest ∧ (w.nodes x).paths.Accepts dest e ∧ (dest, writer) ∈ (u.nodes x).paths.stored ∧
        (u.nodes x).paths.lookup D = some e := by
  rw [hupdate] at hkept ⊢
  simp only [gradient]
  rw [hupdate]
  rcases PathTable.lookup_update_of_kept (congrArg (List.count D) hkept) with
    hnew | hsame | ⟨old, lastSeen, hold, hsame⟩
  · exact .inr hnew
  · exact .inl (by rw [hsame])
  · exact .inl (by rw [hsame, hold]; rfl)

theorem lower_of_accepts (h : (w.nodes x).paths.Accepts D e) :
    ∀ old ∈ (gradient net w D).entry x, e.rank < old.1 := by
  rintro ⟨r, y⟩ hold
  obtain ⟨cur, hcur, -, rfl⟩ := entry_gradient.mp hold
  exact PathEntry.better_iff.mp (h cur hcur)

theorem read_back {ap ap' : AnnouncePayload}
    (hread : net.env.json.announce.unmarshal (net.env.json.announce.marshal ap) = some ap')
    (hid : deriveNodeID net.env.sigs ap.signKey = ap.destHash) (hdest : ap'.destHash = D) :
    ap.destHash = D ∧ rank ap'.timestamp ap'.hopCount = rank ap.timestamp ap.hopCount := by
  obtain ⟨hsame, hts, hhops⟩ := net.keeps ap ap' hid hread
  exact ⟨hsame ▸ hdest, by rw [hts, hhops]⟩

theorem buildSelfAnnounce_spec {v : Discovery} {nonce : UInt64}
    (h : v.buildSelfAnnounce net.env (net.cfg i) nonce = some ap) :
    ap.destHash = (net.cfg i).selfID ∧ deriveNodeID net.env.sigs ap.signKey = ap.destHash ∧ ap.hopCount = 0 := by
  rw [Discovery.buildSelfAnnounce] at h
  split at h
  · cases h
  · rw [AnnouncePayload.sign, if_pos (net.keyed i)] at h
    cases h
    exact ⟨rfl, net.bound i, rfl⟩

/-! ### Steps -/

variable [DecidableEq ι]

def after (w : Network ι) (i : ι) (v : Discovery) (emits : List Emit) : Network ι :=
  ⟨Function.update w.nodes i v, w.frames ++ emits.map fun m => (i, m)⟩

/-- What each action can do. --/
inductive Steps (net : Swarm ι) (w : Network ι) : Action ι → Network ι → Prop where
  | delivered {f : Nat} {i : ι} {addr : String} {srcIface : Interface} {nonce : UInt64} {m : ι × Emit} {v : Discovery}
    {emits : List Emit} :
    w.frames[f]? = some m → net.owner addr = some m.1 →
    (w.nodes i).step net.env (net.cfg i) (.frame addr srcIface m.2.pkt nonce) = some (v, emits) →
    Steps net w (.deliver f i addr srcIface nonce) (w.after i v emits)
  | acted {i : ι} {b : Discovery.Action} {v : Discovery} {emits : List Emit} :
    (∀ addr srcIface pkt nonce, b ≠ .frame addr srcIface pkt nonce) →
    (w.nodes i).step net.env (net.cfg i) b = some (v, emits) → Steps net w (.act i b) (w.after i v emits)

theorem perform_eq {b : Discovery.Action} (h : w.perform net i b = some u) :
    ∃ v emits, (w.nodes i).step net.env (net.cfg i) b = some (v, emits) ∧ u = w.after i v emits := by
  obtain ⟨⟨v, emits⟩, hstep, rfl⟩ := map_eq_some_iff.mp h
  exact ⟨v, emits, hstep, rfl⟩

theorem step_cases (h : step net w a = some u) : Steps net w a u := by
  cases a with
  | deliver f i addr srcIface nonce =>
    obtain ⟨m, hm, h⟩ := bind_eq_some_iff.mp h
    split at h
    next hreach =>
      obtain ⟨v, emits, hstep, rfl⟩ := perform_eq h
      exact .delivered hm hreach.1 hstep
    · cases h
  | act i b =>
    rw [step.eq_def] at h
    split at h
    · next heq => cases heq
    · cases h
    next hne heq =>
      cases heq
      obtain ⟨v, emits, hstep, rfl⟩ := perform_eq h
      exact .acted (fun addr srcIface pkt nonce hb => hne addr srcIface pkt nonce hb) hstep

theorem Steps.moves (h : Steps net w a u) : ∃ i b v emits, (w.nodes i).step net.env (net.cfg i) b = some (v, emits) ∧
    (∀ addr srcIface pkt nonce, b = .frame addr srcIface pkt nonce →
      ∃ f m, a = .deliver f i addr srcIface nonce ∧ w.frames[f]? = some m ∧ m.2.pkt = pkt) ∧ u = w.after i v emits := by
  cases h with
  | delivered hm _ hstep =>
    refine ⟨_, _, _, _, hstep, fun addr srcIface pkt nonce hb => ?_, rfl⟩
    cases hb
    exact ⟨_, _, rfl, hm, rfl⟩
  | acted hb hstep =>
    exact ⟨_, _, _, _, hstep, fun addr srcIface pkt nonce heq => absurd heq (hb addr srcIface pkt nonce), rfl⟩

theorem nodes_after_self (i : ι) (v : Discovery) (emits : List Emit) : (w.after i v emits).nodes i = v := by
  simp [after]

theorem nodes_after_ne {i x : ι} (h : x ≠ i) (v : Discovery) (emits : List Emit) :
    (w.after i v emits).nodes x = w.nodes x := by
  simp [after, h]

theorem Steps.charts (h : Steps net w a u) (x : ι) : (u.nodes x).paths = (w.nodes x).paths ∨
    ∃ f addr srcIface nonce m, a = .deliver f x addr srcIface nonce ∧ w.frames[f]? = some m ∧
      net.owner addr = some m.1 ∧
      Discovery.Charts net.env (net.cfg x) (w.nodes x) (.frame addr srcIface m.2.pkt nonce) (u.nodes x).paths := by
  cases h with
  | @delivered f i addr srcIface nonce m v emits hm howner hstep =>
    by_cases hx : x = i
    · subst hx
      refine .inr ⟨f, addr, srcIface, nonce, m, rfl, hm, howner, ?_⟩
      rw [nodes_after_self]
      exact Discovery.step_charts (by rw [Discovery.next, hstep]; rfl)
    · exact .inl (by rw [nodes_after_ne hx])
  | @acted i b v emits hb hstep =>
    refine .inl ?_
    by_cases hx : x = i
    · subst hx
      rw [nodes_after_self]
      have hcharts := Discovery.step_charts (u := v) (by rw [Discovery.next, hstep]; rfl)
      generalize v.paths = pt at hcharts
      cases hcharts with
      | same => rfl
      | announced | reversed => exact absurd rfl (hb _ _ _ _)
    · rw [nodes_after_ne hx]

theorem Steps.allPlaced (h : Steps net w a u) (hw : AllPlaced net w) : AllPlaced net u := by
  intro x D e hlookup
  rcases h.charts x with hsame | ⟨f, addr, srcIface, nonce, m, -, -, howner, hcharts⟩
  · exact hw x D e (hsame ▸ hlookup)
  · generalize (u.nodes x).paths = pt at hlookup hcharts
    cases hcharts with
    | same => exact hw x D e hlookup
    | announced hresolve _ _ hself hbound =>
      exact Placed.update (hw x) (placed_announced (owner_resolved howner hresolve) hself hbound) D e hlookup
    | reversed hresolve _ _ _ hself =>
      exact Placed.update (hw x) (placed_reversed (owner_resolved howner hresolve) hself) D e hlookup

theorem Steps.histories (h : Steps net w a u) (x : ι) :
    (w.nodes x).paths.evicted <:+ (u.nodes x).paths.evicted ∧
      (w.nodes x).paths.stored <:+ (u.nodes x).paths.stored := by
  rcases h.charts x with hsame | ⟨f, addr, srcIface, nonce, m, -, -, -, hcharts⟩
  · rw [hsame]
    exact ⟨suffix_rfl, suffix_rfl⟩
  · generalize (u.nodes x).paths = pt at hcharts
    cases hcharts with
    | same => exact ⟨suffix_rfl, suffix_rfl⟩
    | announced | reversed => exact ⟨PathTable.evicted_update, PathTable.stored_update⟩

/-- No table has been so full that a path was dropped. --/
def Unevicted (w : Network ι) : Prop := ∀ i, (w.nodes i).paths.evicted = []

theorem Unevicted.before (h : Steps net w a u) (hu : Unevicted u) : Unevicted w := by
  intro i
  have hsuffix := (h.histories i).1
  rw [hu i] at hsuffix
  exact suffix_nil.mp hsuffix

theorem Steps.entry (h : Steps net w a u) (hu : Unevicted u) (D : String) (x : ι) :
    (gradient net u D).entry x = (gradient net w D).entry x ∨ ∃ r y, (gradient net u D).entry x = some (r, y) ∧
      (net.cfg x).selfID ≠ D ∧
      ((gradient net w D).sent y r ∨ Learns net w u D a y r) ∧ ∀ old ∈ (gradient net w D).entry x, r < old.1 := by
  have hkept : (u.nodes x).paths.evicted = (w.nodes x).paths.evicted := (hu x).trans (hu.before h x).symm
  rcases h.charts x with hsame | ⟨f, addr, srcIface, nonce, m, rfl, hm, howner, hcharts⟩
  · exact .inl (by simp only [gradient, hsame])
  obtain ⟨pt, hpt⟩ : ∃ pt, (u.nodes x).paths = pt := ⟨_, rfl⟩
  rw [hpt] at hcharts
  cases hcharts with
  | same => exact .inl (by simp only [gradient, hpt])
  | @announced _ remoteAddr _ _ _ ap hresolve htype hap hself hbound =>
    rcases entry_update net D hkept hpt with hsame | ⟨rfl, haccepts, -, hnew⟩
    · exact .inl hsame
    · refine .inr ⟨_, m.1, entry_gradient.mpr ⟨_, hnew, owner_resolved howner hresolve, rfl⟩, hself.symm, .inl ?_,
        lower_of_accepts haccepts⟩
      exact ⟨m.2, ap, mem_of_getElem? hm, htype, hap, rfl, rfl⟩
  | @reversed _ remoteAddr _ _ ip _ hresolve htype hbrings hv hself =>
    rcases entry_update net D hkept hpt with hsame | ⟨rfl, haccepts, hstored, hnew⟩
    · exact .inl hsame
    · refine .inr ⟨_, m.1, entry_gradient.mpr ⟨_, hnew, owner_resolved howner hresolve, rfl⟩, hself.symm, .inr ?_,
        lower_of_accepts haccepts⟩
      exact .intro hm howner hresolve htype hbrings hv rfl haccepts hstored

theorem Steps.sent {relays : ι → Prop} (h : Steps net w a u) (hw : AllPlaced net w) (hu : Unevicted u)
    (htransport : ∀ i, (w.nodes i).isTransport = true → relays i)
    (hanswer : ∀ i e, Answers net w a i e → relays i ∧ e.hops.toNat < 255) (D : String) (y : ι) (r : ℤ ×ₗ ℕ)
    (hsent : (gradient net u D).sent y r) :
    (gradient net w D).sent y r ∨ ((net.cfg y).selfID = D ∧ depth r = 0) ∨
      relays y ∧ ∃ r₀ z, (gradient net u D).entry y = some (r₀, z) ∧ r₀ < r ∧ depth r ≤ depth r₀ + 1 := by
  obtain ⟨m, ap', hmem, htype, hread, hdest, rfl⟩ := hsent
  have hplaced : AllPlaced net u := h.allPlaced hw
  have hbefore : Unevicted w := hu.before h
  obtain ⟨i, b, v, emits, hstep, hb, rfl⟩ := h.moves
  rcases mem_append.mp hmem with hold | hnew
  · exact .inl ⟨m, ap', hold, htype, hread, hdest, rfl⟩
  obtain ⟨m', hemit, heq⟩ := mem_map.mp hnew
  cases heq
  obtain ⟨ap, hpayload, htells⟩ := Discovery.step_tells hstep hemit htype
  rw [hpayload] at hread
  refine .inr ?_
  cases htells with
  | own hown =>
    obtain ⟨hself, hid, hhops⟩ := buildSelfAnnounce_spec hown
    obtain ⟨hD, hrank⟩ := read_back hread hid hdest
    rw [hrank, hhops]
    exact .inl ⟨hself ▸ hD, rfl⟩
  | @forwarded _ _ ap remoteAddr htrans hmax hbound hstore =>
    simp only [AnnouncePayload.verifyBound, Bool.and_eq_true, decide_eq_true_eq] at hbound
    obtain ⟨rfl, hrank⟩ := read_back hread hbound.1.2 hdest
    have hkept : (((w.nodes y).paths.store net.env.pathIter ap.destHash
        (Discovery.announcedPath (net.cfg y) ap remoteAddr (w.nodes y).now) .announced)).evicted =
          (w.nodes y).paths.evicted := by
      have := hu y
      rw [nodes_after_self, hstore] at this
      rw [this, hbefore y]
    have hlookup : ((w.after y v emits).nodes y).paths.lookup ap.destHash =
        some (Discovery.announcedPath (net.cfg y) ap remoteAddr (w.nodes y).now) := by
      rw [nodes_after_self, hstore, PathTable.lookup_store_of_kept (congrArg (List.count _) hkept), if_pos rfl]
    obtain ⟨z, hz⟩ := (hplaced y _ _ hlookup).owned
    have hlt : ap.hopCount.toNat < 255 := by
      rw [announceHopMax] at hmax
      omega
    obtain ⟨hless, hdepth⟩ := rank_lt_succ ap.timestamp hlt
    rw [hrank]
    exact .inr ⟨htransport y htrans, _, z, entry_gradient.mpr ⟨_, hlookup, hz, rfl⟩, hless, hdepth.le⟩
  | @answered addr srcIface pkt nonce _ pr e ann hreq hpr he hann hsame =>
    obtain ⟨f, fm, rfl, hfm, rfl⟩ := hb addr srcIface pkt nonce rfl
    obtain ⟨hrelays, hlt⟩ := hanswer y e (.intro hfm hreq hpr he (by rw [hann]; rfl))
    obtain ⟨⟨z, hz⟩, -, hplacedAnn⟩ := hw y pr.destHash e he
    obtain ⟨hannD, hid, hts⟩ := hplacedAnn ann hann
    obtain ⟨rfl, hrank⟩ := read_back hread (hid.trans hannD.symm) hdest
    obtain ⟨hless, hdepth⟩ := rank_lt_succ e.originTS hlt
    rw [hrank, hts]
    refine .inr ⟨hrelays, e.rank, z, entry_gradient.mpr ⟨e, ?_, hz, rfl⟩, hless, hdepth.le⟩
    rw [nodes_after_self, hsame, hannD]
    exact he

theorem Steps.gradient {relays : ι → Prop} (h : Steps net w a u) (hw : AllPlaced net w) (hu : Unevicted u)
    (htransport : ∀ i, (w.nodes i).isTransport = true → relays i)
    (hanswer : ∀ i e, Answers net w a i e → relays i ∧ e.hops.toNat < 255) (D : String) :
    Gradient.Step (fun i => (net.cfg i).selfID = D) relays depth (Learns net w u D a) (gradient net w D)
      (gradient net u D) :=
  ⟨h.entry hu D, h.sent hw hu htransport hanswer D⟩

/-! ### The beginning -/

omit [DecidableEq ι] in
theorem allPlaced_new (net : Swarm ι) : AllPlaced net (new net) := by
  intro i D e he
  simp only [new, Discovery.new, PathTable.lookup, PathTable.new, GoMap.get?_empty] at he
  cases he

omit [DecidableEq ι] in
theorem entry_new (net : Swarm ι) (D : String) (x : ι) : (Network.gradient net (new net) D).entry x = none := by
  simp only [Network.gradient, new, Discovery.new, PathTable.lookup, PathTable.new, GoMap.get?_empty, bind_none]

omit [DecidableEq ι] in
theorem not_sent_new (net : Swarm ι) (D : String) (y : ι) (r : ℤ ×ₗ ℕ) :
    ¬(Network.gradient net (new net) D).sent y r := by
  rintro ⟨m, ap, hmem, -⟩
  cases hmem

omit [DecidableEq ι] in
theorem sound_new (net : Swarm ι) (D : String) (origin relays : ι → Prop) :
    (Network.gradient net (new net) D).Sound origin relays := by
  refine ⟨fun x r y hx => ?_, fun y r hsent => absurd hsent (not_sent_new net D y r)⟩
  rw [entry_new] at hx
  cases hx

/-! ### Routes -/

/-- Following the next hops for `D` from table to table leads from `x`, which holds `e`, over the nodes of the list to
    the node `d` of that name; each entry on the way is better than the one before. --/
inductive Route (net : Swarm ι) (w : Network ι) (D : String) : ι → PathEntry → List ι → ι → Prop where
  | last {x d : ι} {e : PathEntry} : (w.nodes x).paths.lookup D = some e → net.owner e.nextHop = some d →
    (net.cfg d).selfID = D →
    Route net w D x e [] d
  | hop {x y d : ι} {e e' : PathEntry} {l : List ι} : (w.nodes x).paths.lookup D = some e →
    net.owner e.nextHop = some y →
    Route net w D y e' l d → e'.Better e → Route net w D x e (y :: l) d

omit [DecidableEq ι] in
theorem route_of_gradient {relays : ι → Prop} {x d : ι} {l : List ι}
    (h : (Network.gradient net w D).Route (fun i => (net.cfg i).selfID = D) relays x l d)
    (he : (w.nodes x).paths.lookup D = some e) : w.Route net D x e l d := by
  induction h generalizing e with
  | last hx horigin =>
    obtain ⟨e', he', howner, -⟩ := entry_gradient.mp hx
    cases he.symm.trans he'
    exact .last he howner horigin
  | hop hx _ hy hlt _ ih =>
    obtain ⟨e₁, he₁, howner, rfl⟩ := entry_gradient.mp hx
    obtain ⟨e₂, he₂, -, rfl⟩ := entry_gradient.mp hy
    cases he.symm.trans he₁
    exact .hop he howner (ih he₂) (PathEntry.better_iff.mpr hlt)

end Network
end SyncSwarm.Discovery
