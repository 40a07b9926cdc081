import SyncSwarm.Lib.Lists
import SyncSwarm.Theorems.Link.Moves

/-! Where links come from while the network makes up no request and no proof. -/

namespace SyncSwarm.Link
open Lib List

variable {η : Type}

/-- The ephemeral key that a dial or an answer draws. --/
def Action.eph? : Action η → Option Bytes
  | .dial _ _ _ _ eph | .dialCached _ _ _ _ eph | .deliverRequest _ _ _ eph _ => some eph
  | _ => none

theorem Action.eph?_of_call? {a : Action η} {c : Call η} (h : a.call? = some c) : a.eph? = some c.eph := by
  cases a <;> cases h <;> rfl

/-- With the ephemeral key `e`, which is one of `K`, the link `s` answers the dial `c`, and `pr` is its proof. --/
structure Answers (C : Crypto) (K : Bytes → Prop) (s : Session η) (pr : ProofPayload) (c : Call η) (e : Bytes) :
    Prop where
  host : c.host ≠ s.mgr
  call : c.id = s.id
  proof : pr.linkID = s.id
  responder : s.initiator = false
  ephPub : pr.ephPub = C.publicKey e
  aead : sharedAEAD C e (C.publicKey c.eph) s.id = some s.aead
  drawn : K e

structure Makes (C : Crypto) (s : Session η) (pr : ProofPayload) (c : Call η) : Prop where
  host : c.host = s.mgr
  call : c.id = s.id
  proof : pr.linkID = s.id
  initiator : s.initiator = true
  aead : sharedAEAD C c.eph pr.ephPub s.id = some s.aead

def Seals (C : Crypto) (s : Session η) (y : Sending) : Prop :=
  ∃ ctr, y.packet = ⟨s.id, Link.nonce s.initiator ctr, C.gcmSeal s.aead (Link.nonce s.initiator ctr) y.data⟩

theorem answer_some {C : Crypto} {self eph aead : Bytes} {req : RequestPayload} {pr : ProofPayload}
    (h : answer C self eph req = some (aead, pr)) :
    sharedAEAD C eph req.ephPub req.linkID = some aead ∧ pr.linkID = req.linkID ∧ pr.ephPub = C.publicKey eph := by
  obtain ⟨k, hk, hpr⟩ := Option.map_eq_some_iff.mp h
  cases hpr
  exact ⟨hk, rfl, rfl⟩

theorem accept_some {C : Crypto} {destSignPub eph aead : Bytes} {pr : ProofPayload}
    (h : accept C destSignPub eph pr = some aead) : sharedAEAD C eph pr.ephPub pr.linkID = some aead := by
  rw [accept] at h
  split at h
  · exact h
  · cases h

def Action.handshake? : Action η → Option (η × LinkPacket)
  | .deliverRequest h _ req _ _ => some (h, .request req)
  | .deliverProof h pr => some (h, .proof pr)
  | _ => none

namespace World
variable {C : Crypto} {K : Bytes → Prop} {w u : World η}

def Reaches (w : World η) (h : η) (p : LinkPacket) : Prop := ∃ x ∈ w.wire, x.src ≠ h ∧ x.packet = p

/-- The network hands over only requests and proofs that were sent, and not to their senders. --/
def Honest (w : World η) (a : Action η) : Prop := ∀ p ∈ a.handshake?, w.Reaches p.1 p.2

/-- Where requests, proofs, links and data come from. --/
structure Provenance (C : Crypto) (K : Bytes → Prop) (w : World η) : Prop where
  calls : ∀ c ∈ w.calls, K c.eph
  request : ∀ x ∈ w.wire, ∀ req, x.packet = .request req →
    ∃ c ∈ w.calls, c.host = x.src ∧ req = ⟨c.id, C.publicKey c.eph⟩
  proof : ∀ x ∈ w.wire, ∀ pr, x.packet = .proof pr →
    ∃ s ∈ w.sessions, s.mgr = x.src ∧ ∃ c ∈ w.calls, ∃ e, Answers C K s pr c e
  pending : ∀ h id d, (w.managers h).pending.get? id = some d → ∃ c, w.calls[d]? = some c ∧ c.host = h ∧ c.id = id
  initiator : ∀ s ∈ w.sessions, s.initiator = true →
    ∃ c ∈ w.calls, ∃ pr, Makes C s pr c ∧ w.Reaches s.mgr (.proof pr)
  responder : ∀ s ∈ w.sessions, s.initiator = false →
    ∃ c ∈ w.calls, ∃ pr e, Answers C K s pr c e ∧ ∃ x ∈ w.wire, x.src = s.mgr ∧ x.packet = .proof pr
  sends : ∀ y ∈ w.sends, ∃ s, w.sessions[y.link]? = some s ∧ Seals C s y

structure Grows (w u : World η) : Prop where
  sessions : w.sessions <+: u.sessions
  calls : w.calls <+: u.calls
  wire : w.wire ⊆ u.wire

theorem Reaches.mono {h : η} {p : LinkPacket} (hx : w.Reaches h p) (hw : w.wire ⊆ u.wire) : u.Reaches h p := by
  obtain ⟨x, hx, hsrc⟩ := hx
  exact ⟨x, hw hx, hsrc⟩

namespace Provenance

theorem grow (h : Provenance C K w) (g : Grows w u) (calls : ∀ c ∈ u.calls, c ∈ w.calls ∨ K c.eph)
    (request : ∀ x ∈ u.wire, x ∉ w.wire → ∀ req, x.packet = .request req →
      ∃ c ∈ u.calls, c.host = x.src ∧ req = ⟨c.id, C.publicKey c.eph⟩)
    (proof : ∀ x ∈ u.wire, x ∉ w.wire → ∀ pr, x.packet = .proof pr →
      ∃ s ∈ u.sessions, s.mgr = x.src ∧ ∃ c ∈ u.calls, ∃ e, Answers C K s pr c e)
    (pending : ∀ h id d, (u.managers h).pending.get? id = some d → (w.managers h).pending.get? id = some d ∨
      ∃ c, u.calls[d]? = some c ∧ c.host = h ∧ c.id = id)
    (session : ∀ s ∈ u.sessions, s ∈ w.sessions ∨
      (∃ c ∈ u.calls, ∃ pr, Makes C s pr c ∧ u.Reaches s.mgr (.proof pr)) ∨
      ∃ c ∈ u.calls, ∃ pr e, Answers C K s pr c e ∧ ∃ x ∈ u.wire, x.src = s.mgr ∧ x.packet = .proof pr)
    (sends : ∀ y ∈ u.sends, y ∈ w.sends ∨ ∃ s, u.sessions[y.link]? = some s ∧ Seals C s y) : Provenance C K u where
  calls c hc := (calls c hc).elim (h.calls c) id
  request x hx req hreq := by
    by_cases hw : x ∈ w.wire
    · obtain ⟨c, hc, hcx⟩ := h.request x hw req hreq
      exact ⟨c, g.calls.subset hc, hcx⟩
    · exact request x hx hw req hreq
  proof x hx pr hpr := by
    by_cases hw : x ∈ w.wire
    · obtain ⟨s, hs, hmgr, c, hc, e, hans⟩ := h.proof x hw pr hpr
      exact ⟨s, g.sessions.subset hs, hmgr, c, g.calls.subset hc, e, hans⟩
    · exact proof x hx hw pr hpr
  pending x id d hd := by
    rcases pending x id d hd with hd | hd
    · obtain ⟨c, hc, hcx⟩ := h.pending x id d hd
      exact ⟨c, getElem?_mono g.calls hc, hcx⟩
    · exact hd
  initiator s hs hinit := by
    rcases session s hs with hs | hmade | ⟨c, -, pr, e, hans, -⟩
    · obtain ⟨c, hc, pr, hmakes, hreach⟩ := h.initiator s hs hinit
      exact ⟨c, g.calls.subset hc, pr, hmakes, hreach.mono g.wire⟩
    · exact hmade
    · rw [hans.responder] at hinit
      cases hinit
  responder s hs hresp := by
    rcases session s hs with hs | ⟨c, -, pr, hmakes, -⟩ | hans
    · obtain ⟨c, hc, pr, e, hans, x, hx, hsrc⟩ := h.responder s hs hresp
      exact ⟨c, g.calls.subset hc, pr, e, hans, x, g.wire hx, hsrc⟩
    · rw [hmakes.initiator] at hresp
      cases hresp
    · exact hans
  sends y hy := by
    rcases sends y hy with hy | hy
    · obtain ⟨s, hs, hseal⟩ := h.sends y hy
      exact ⟨s, getElem?_mono g.sessions hs, hseal⟩
    · exact hy

theorem requested (h : Provenance C K w) {c : Call η} (hc : c ∈ w.calls) :
    Provenance C K { w with wire := w.wire ++ [⟨c.host, c.addr, .request ⟨c.id, C.publicKey c.eph⟩⟩] } := by
  have hg : Grows w { w with wire := w.wire ++ [⟨c.host, c.addr, .request ⟨c.id, C.publicKey c.eph⟩⟩] } :=
    ⟨prefix_rfl, prefix_rfl, subset_append_left _ _⟩
  refine h.grow hg (fun _ hc => .inl hc) ?_ ?_ (fun _ _ _ hd => .inl hd) (fun s hs => .inl hs) fun y hy => .inl hy
  · intro x hx hnew req hreq
    obtain rfl := mem_singleton.mp ((mem_append.mp hx).resolve_left hnew)
    cases hreq
    exact ⟨c, hc, rfl, rfl⟩
  · intro x hx hnew pr hpr
    obtain rfl := mem_singleton.mp ((mem_append.mp hx).resolve_left hnew)
    cases hpr

theorem sessions_establish (s : Session η) (addr : String) (dial : Option Nat) :
    (w.establish s addr dial).sessions = w.sessions ++ [s] := map_append

theorem answered (h : Provenance C K w) {x : η} {addr : String} {req : RequestPayload} {eph aead : Bytes}
    {pr : ProofPayload} (hdrawn : K eph) (hreq : w.Reaches x (.request req))
    (hans : answer C (w.managers x).self eph req = some (aead, pr)) :
    Provenance C K
      { w.establish ⟨req.linkID, aead, false, x⟩ addr none with wire := w.wire ++ [⟨x, addr, .proof pr⟩] } := by
  let s : Session η := ⟨req.linkID, aead, false, x⟩
  let u : World η := { w.establish s addr none with wire := w.wire ++ [⟨x, addr, .proof pr⟩] }
  obtain ⟨y, hy, hsrc, hpacket⟩ := hreq
  obtain ⟨c, hc, hhost, rfl⟩ := h.request y hy req hpacket
  obtain ⟨hkey, hid, hpub⟩ := answer_some hans
  have hanswers : Answers C K s pr c eph := ⟨hhost ▸ hsrc, rfl, hid, rfl, hpub, hkey, hdrawn⟩
  have hsessions : u.sessions = w.sessions ++ [s] := sessions_establish s addr none
  have hs : s ∈ u.sessions := hsessions ▸ mem_append_right _ (mem_singleton_self s)
  have hg : Grows w u := ⟨⟨[s], hsessions.symm⟩, prefix_rfl, subset_append_left _ _⟩
  refine h.grow hg (fun _ hc => .inl hc) ?_ ?_ (fun _ _ _ hd => .inl hd) ?_ fun y hy => .inl hy
  · intro z hz hnew req hreq
    obtain rfl := mem_singleton.mp ((mem_append.mp hz).resolve_left hnew)
    cases hreq
  · intro z hz hnew pr' hpr
    obtain rfl := mem_singleton.mp ((mem_append.mp hz).resolve_left hnew)
    cases hpr
    exact ⟨s, hs, rfl, c, hc, eph, hanswers⟩
  · intro s' hs'
    rcases mem_append_single.mp (hsessions ▸ hs') with hs' | rfl
    · exact .inl hs'
    · exact .inr (.inr ⟨c, hc, _, eph, hanswers, _, mem_append_right _ (mem_singleton_self _), rfl, rfl⟩)

theorem accepted (h : Provenance C K w) {x : η} {pr : ProofPayload} {d : Nat} {c : Call η} {aead : Bytes}
    (hpr : w.Reaches x (.proof pr)) (hd : (w.managers x).pending.get? pr.linkID = some d) (hc : w.calls[d]? = some c)
    (hacc : accept C c.destSignPub c.eph pr = some aead) :
    Provenance C K (w.establish ⟨pr.linkID, aead, true, x⟩ "" (some d)) := by
  let s : Session η := ⟨pr.linkID, aead, true, x⟩
  obtain ⟨c', hc', hhost, hid⟩ := h.pending x pr.linkID d hd
  obtain rfl := Option.mem_unique hc hc'
  have hmakes : Makes C s pr c := ⟨hhost, hid, rfl, rfl, accept_some hacc⟩
  have hsessions := sessions_establish (w := w) s "" (some d)
  have hg : Grows w (w.establish s "" (some d)) := ⟨⟨[s], hsessions.symm⟩, prefix_rfl, fun _ hx => hx⟩
  refine h.grow hg (fun _ hc => .inl hc) (fun y hy hnew => absurd hy hnew) (fun y hy hnew => absurd hy hnew)
    (fun _ _ _ hd => .inl hd) ?_
    fun y hy => .inl hy
  intro s' hs'
  rcases mem_append_single.mp (hsessions ▸ hs') with hs' | rfl
  · exact .inl hs'
  · exact .inr (.inl ⟨c, mem_of_getElem? hc, pr, hmakes, hpr⟩)

theorem sent (h : Provenance C K w) {l : Nat} {x : Link η} {data : Bytes} {wire : List (Sent η)}
    (hx : w.heap[l]? = some x) (hwire : ∀ s ∈ wire, ∃ d, s.packet = .data d) :
    Provenance C K { w with sends := w.sends ++ [⟨l, data, (x.send C data).2⟩], wire := w.wire ++ wire } := by
  have hg : Grows w { w with sends := w.sends ++ [⟨l, data, (x.send C data).2⟩], wire := w.wire ++ wire } :=
    ⟨prefix_rfl, prefix_rfl, subset_append_left _ _⟩
  refine h.grow hg (fun _ hc => .inl hc) ?_ ?_ (fun _ _ _ hd => .inl hd) (fun s hs => .inl hs) ?_
  · intro y hy hnew req hreq
    obtain ⟨d, hd⟩ := hwire y ((mem_append.mp hy).resolve_left hnew)
    rw [hd] at hreq
    cases hreq
  · intro y hy hnew pr hpr
    obtain ⟨d, hd⟩ := hwire y ((mem_append.mp hy).resolve_left hnew)
    rw [hd] at hpr
    cases hpr
  · intro y hy
    rcases mem_append_single.mp hy with hy | rfl
    · exact .inl hy
    · exact .inr ⟨x.toSession, getElem?_sessions hx, x.sendCtr + 1, rfl⟩

theorem keep (h : Provenance C K w) (hsessions : u.sessions = w.sessions) (hcalls : u.calls = w.calls)
    (hwire : u.wire = w.wire) (hsends : u.sends = w.sends)
    (hpending : ∀ x id d, (u.managers x).pending.get? id = some d → (w.managers x).pending.get? id = some d) :
    Provenance C K u where
  calls := by rw [hcalls]; exact h.calls
  request := by rw [hwire, hcalls]; exact h.request
  proof := by rw [hwire, hcalls, hsessions]; exact h.proof
  pending x id d hd := by rw [hcalls]; exact h.pending x id d (hpending x id d hd)
  initiator := by unfold Reaches; rw [hwire, hcalls, hsessions]; exact h.initiator
  responder := by rw [hwire, hcalls, hsessions]; exact h.responder
  sends := by rw [hsends, hsessions]; exact h.sends

theorem quiet (h : Provenance C K w) (q : Quiet w u) : Provenance C K u :=
  h.keep q.sessions q.calls q.wire q.sends q.pending

theorem new (self : η → Bytes) : Provenance C K (World.new self) := by
  constructor <;> simp [World.new, newManager, World.calls, sessions]

variable [DecidableEq η]

theorem opened (h : Provenance C K w) {c : Call η} (hdrawn : K c.eph) : Provenance C K (w.dial c) := by
  have hcalls : (w.dial c).calls = w.calls ++ [c] := map_append
  have hg : Grows w (w.dial c) := ⟨prefix_rfl, ⟨[c], hcalls.symm⟩, fun _ hx => hx⟩
  refine h.grow hg ?_ (fun x hx hnew => absurd hx hnew) (fun x hx hnew => absurd hx hnew) ?_ (fun s hs => .inl hs)
    fun y hy => .inl hy
  · intro c' hc'
    rcases mem_append_single.mp (hcalls ▸ hc') with hc' | rfl
    · exact .inl hc'
    · exact .inr hdrawn
  intro x id d hd
  by_cases hx : x = c.host
  · subst hx
    by_cases hid : id = c.id
    · subst hid
      have hd' : w.dials.length = d := by simpa [World.dial, setManager] using hd
      refine .inr ⟨c, ?_, rfl, rfl⟩
      rw [hcalls, ← hd', getElem?_append_right (by simp [World.calls])]
      simp [World.calls]
    · exact .inl (by simpa [World.dial, setManager, GoMap.get?_set_ne _ _ hid] using hd)
  · exact .inl (by simpa [World.dial, setManager, hx] using hd)

theorem step (h : Provenance C K w) {a : Action η} (hdrawn : ∀ e ∈ a.eph?, K e) (hnet : w.Honest a)
    (hu : w.step C a = some u) : Provenance C K u := by
  cases moves hu with
  | quiet q => exact h.quiet q
  | opened c hc q => exact (h.opened (hdrawn _ (Action.eph?_of_call? hc))).quiet q
  | requested c hc q => exact (h.requested hc).quiet q
  | answered aead pr hans => exact h.answered (hdrawn _ rfl) (hnet _ rfl) hans
  | accepted d c aead hd hc hacc => exact h.accepted (hnet _ rfl) hd hc hacc
  | found l _ => exact h.keep rfl rfl rfl rfl fun _ _ _ hd => hd
  | stored l dial s next _ _ _ =>
    refine h.keep rfl rfl rfl rfl fun x id d hd => ?_
    by_cases hx : x = s.mgr <;> simpa [enter, setManager, hx] using hd
  | notified l _ q | handed l d s cb pt _ _ _ q => exact h.keep q.sessions q.calls q.wire q.sends q.pending
  | pushed l d x _ hx q => exact h.keep q.sessions (q.calls.trans (calls_setDial hx rfl)) q.wire q.sends q.pending
  | sent x wire _ hx hwire q =>
    exact (h.sent hx hwire).keep (q.sessions.trans (sessions_setLink hx rfl)) q.calls q.wire q.sends q.pending
  | closed l s _ q =>
    refine h.keep q.sessions q.calls q.wire q.sends fun x id d hd => ?_
    have hd := q.pending x id d hd
    by_cases hx : x = s.mgr <;> simpa [shut, setManager, hx] using hd

end Provenance
end World
end SyncSwarm.Link
