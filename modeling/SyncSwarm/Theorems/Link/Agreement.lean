import SyncSwarm.Theorems.Link.Provenance

/-! Agreement of two managers on a link, while no host handles a second request for a link ID or a second proof for a
    dial that still waits. -/

namespace SyncSwarm.Link
open Lib List Option

variable {η : Type}

theorem Party.eq_other {a b : Party} (h : a ≠ b) : a = b.other := by
  cases a <;> cases b <;> first | rfl | exact absurd rfl h

theorem Party.other_other (a : Party) : a.other.other = a := by cases a <;> rfl

namespace World
variable {C : Crypto} {w u : World η}

def Linked (w : World η) (h : η) (id : LinkID) : Prop := ∃ s ∈ w.sessions, s.mgr = h ∧ s.id = id

/-- The host and the ID of a handler that goes to work; a proof is passed over when no dial waits for it. --/
def handles? (w : World η) : Action η → Option (η × LinkID)
  | .deliverRequest h _ req _ _ => some (h, req.linkID)
  | .deliverProof h pr => if ((w.managers h).pending.get? pr.linkID).isSome then some (h, pr.linkID) else none
  | _ => none

/-- No handler goes to work for an ID of which its host has a link already. --/
def Single (w : World η) (a : Action η) : Prop := ∀ p ∈ w.handles? a, ¬w.Linked p.1 p.2

/-- A host draws no link ID twice. --/
def FreshID (w : World η) (a : Action η) : Prop :=
  ∀ c ∈ a.call?, ∀ c' ∈ w.calls, c'.host = c.host → c'.id ≠ c.id

section
variable [DecidableEq η]

instance (w : World η) (a : Action η) : Decidable (w.Honest a) :=
  inferInstanceAs (Decidable (∀ p ∈ a.handshake?, ∃ x ∈ w.wire, x.src ≠ p.1 ∧ x.packet = p.2))

instance (w : World η) (a : Action η) : Decidable (w.Single a) :=
  inferInstanceAs (Decidable (∀ p ∈ w.handles? a, ¬∃ s ∈ w.sessions, s.mgr = p.1 ∧ s.id = p.2))

instance (w : World η) (a : Action η) : Decidable (w.FreshID a) :=
  inferInstanceAs (Decidable (∀ c ∈ a.call?, ∀ c' ∈ w.calls, c'.host = c.host → c'.id ≠ c.id))

end

structure Serves (w : World η) (d l : Nat) (c : Call η) (s : Session η) : Prop where
  call : w.calls[d]? = some c
  session : w.sessions[l]? = some s
  initiator : s.initiator = true
  host : s.mgr = c.host
  id : s.id = c.id

def Kept (w : World η) (l : Nat) (s : Session η) : Prop :=
  l ∈ w.closed ∨ (w.managers s.mgr).links.get? s.id = some l

theorem Serves.mono {d l : Nat} {c : Call η} {s : Session η} (h : w.Serves d l c s) (hs : w.sessions <+: u.sessions)
    (hc : w.calls <+: u.calls) : u.Serves d l c s :=
  { h with call := getElem?_mono hc h.call, session := getElem?_mono hs h.session }

section
variable [DecidableEq η]

theorem links_enter (w : World η) (l : Nat) (s : Session η) (x : η) (id : LinkID) :
    ((w.enter l s).managers x).links.get? id = if x = s.mgr ∧ id = s.id then some l else
      (w.managers x).links.get? id := by
  by_cases hx : x = s.mgr
  · subst hx
    simp [enter, setManager, GoMap.get?_set]
  · simp [enter, setManager, hx]

theorem links_shut (w : World η) (l : Nat) (s : Session η) (x : η) (id : LinkID) :
    ((w.shut l s).managers x).links.get? id = if x = s.mgr ∧ id = s.id then none else (w.managers x).links.get? id := by
  by_cases hx : x = s.mgr
  · subst hx
    by_cases hid : id = s.id
    · subst hid
      simp [shut, setManager]
    · simp [shut, setManager, hid, GoMap.get?_delete_ne]
  · simp [shut, setManager, hx]

end

/-- The invariant: a host has one link for an ID. --/
structure Slots (w : World η) : Prop where
  sessions : (w.sessions.map fun s => (s.mgr, s.id)).Nodup
  calls : ∀ c ∈ w.calls, ∀ c' ∈ w.calls, c.host = c'.host → c.id = c'.id → c = c'
  table : ∀ h id l, (w.managers h).links.get? id = some l → ∃ s, w.sessions[l]? = some s ∧ s.mgr = h ∧ s.id = id
  store : ∀ l d, .store l (some d) ∈ w.threads → ∃ c s, w.Serves d l c s
  push : ∀ l d, .push l d ∈ w.threads → ∃ c s, w.Serves d l c s ∧ w.Kept l s
  gave : ∀ d l, w.Gave d l → ∃ c s, w.Serves d l c s ∧ w.Kept l s

namespace Slots

theorem unique (h : Slots w) {i j : Nat} {s t : Session η} (hs : w.sessions[i]? = some s) (ht : w.sessions[j]? = some t)
    (hmgr : s.mgr = t.mgr) (hid : s.id = t.id) : i = j := by
  have hi : (w.sessions.map fun s => (s.mgr, s.id))[i]? = some (s.mgr, s.id) := by simp [hs]
  have hj : (w.sessions.map fun s => (s.mgr, s.id))[j]? = some (s.mgr, s.id) := by simp [ht, hmgr, hid]
  exact (getElem?_inj (lt_of_getElem? hi) h.sessions).mp (hi.trans hj.symm)

theorem grow (h : Slots w) (hs : w.sessions <+: u.sessions) (hc : w.calls <+: u.calls)
    (sessions : (u.sessions.map fun s => (s.mgr, s.id)).Nodup)
    (calls : ∀ c ∈ u.calls, ∀ c' ∈ u.calls, c.host = c'.host → c.id = c'.id → c = c')
    (kept : ∀ l s, w.sessions[l]? = some s → w.Kept l s → u.Kept l s)
    (table : ∀ x id l, (u.managers x).links.get? id = some l → (w.managers x).links.get? id = some l ∨
      ∃ s, u.sessions[l]? = some s ∧ s.mgr = x ∧ s.id = id)
    (store : ∀ l d, .store l (some d) ∈ u.threads → .store l (some d) ∈ w.threads ∨ ∃ c s, u.Serves d l c s)
    (push : ∀ l d, .push l d ∈ u.threads → .push l d ∈ w.threads ∨ ∃ c s, u.Serves d l c s ∧ u.Kept l s)
    (gave : ∀ d l, u.Gave d l → w.Gave d l ∨ ∃ c s, u.Serves d l c s ∧ u.Kept l s) : Slots u := by
  have hold : ∀ {d l}, (∃ c s, w.Serves d l c s ∧ w.Kept l s) → ∃ c s, u.Serves d l c s ∧ u.Kept l s := by
    rintro d l ⟨c, s, hserves, hkept⟩
    exact ⟨c, s, hserves.mono hs hc, kept l s hserves.session hkept⟩
  refine ⟨sessions, calls, ?_, ?_, fun l d hd => (push l d hd).elim (fun hd => hold (h.push l d hd)) id,
    fun d l hl => (gave d l hl).elim (fun hl => hold (h.gave d l hl)) id⟩
  · intro x id l hl
    rcases table x id l hl with hl | hl
    · obtain ⟨s, hsl, hx⟩ := h.table x id l hl
      exact ⟨s, getElem?_mono hs hsl, hx⟩
    · exact hl
  · intro l d hd
    rcases store l d hd with hd | hd
    · obtain ⟨c, s, hserves⟩ := h.store l d hd
      exact ⟨c, s, hserves.mono hs hc⟩
    · exact hd

theorem keep (h : Slots w) (hsessions : u.sessions = w.sessions) (hcalls : u.calls = w.calls)
    (hclosed : u.closed = w.closed) (hlinks : ∀ x, (u.managers x).links = (w.managers x).links)
    (hthreads : ∀ x ∈ u.threads, x ∈ w.threads ∨ x.Idle ∨ ∃ l d, x = .opening l d)
    (hgave : ∀ d l, u.Gave d l → w.Gave d l) : Slots u := by
  refine h.grow (hsessions ▸ prefix_rfl) (hcalls ▸ prefix_rfl) (hsessions ▸ h.sessions) (hcalls ▸ h.calls)
    (fun l s _ hkept => ?_) (fun x id l hl => .inl (hlinks x ▸ hl)) (fun l d hd => ?_) (fun l d hd => ?_)
    fun d l hl => .inl (hgave d l hl)
  · rwa [Kept, hclosed, hlinks]
  · rcases hthreads _ hd with hd | hidle | ⟨_, _, heq⟩
    · exact .inl hd
    · exact hidle.elim
    · cases heq
  · rcases hthreads _ hd with hd | hidle | ⟨_, _, heq⟩
    · exact .inl hd
    · exact hidle.elim
    · cases heq

theorem quiet (h : Slots w) (q : Quiet w u) : Slots u :=
  h.keep q.sessions q.calls q.closed q.links (fun x hx => (q.threads x hx).imp id .inl) q.gave

theorem establish (h : Slots w) {s : Session η} (hnew : ¬w.Linked s.mgr s.id) {addr : String} {dial : Option Nat}
    {wire : List (Sent η)} (hdial : ∀ d, dial = some d →
      ∃ c, w.calls[d]? = some c ∧ s.initiator = true ∧ s.mgr = c.host ∧ s.id = c.id) :
    Slots { w.establish s addr dial with wire := wire } := by
  have hsessions : ({ w.establish s addr dial with wire := wire } : World η).sessions = w.sessions ++ [s] :=
    map_append
  refine h.grow ⟨[s], hsessions.symm⟩ prefix_rfl ?_ h.calls (fun _ _ _ hkept => hkept) (fun _ _ _ hl => .inl hl)
    (fun l d hd => ?_) (fun l d hd => ?_) fun _ _ hl => .inl hl
  · rw [hsessions, map_append, nodup_append]
    refine ⟨h.sessions, by simp, ?_⟩
    intro p hp q hq heq
    obtain ⟨t, ht, rfl⟩ := mem_map.mp hp
    obtain rfl : q = (s.mgr, s.id) := by simpa using hq
    exact hnew ⟨t, ht, Prod.mk.inj heq⟩
  · rcases mem_append.mp hd with hd | hd
    · exact .inl hd
    · cases mem_singleton.mp hd
      obtain ⟨c, hc, hinit, hhost, hid⟩ := hdial d rfl
      refine .inr ⟨c, s, hc, ?_, hinit, hhost, hid⟩
      rw [hsessions]
      simp [World.sessions]
  · rcases mem_append.mp hd with hd | hd
    · exact .inl hd
    · cases mem_singleton.mp hd

theorem pushed (h : Slots w) {l d : Nat} {x : Dial η} (hpush : .push l d ∈ w.threads) (hx : w.dials[d]? = some x) :
    Slots (w.setDial d { x with result := x.result.or (some l) }) := by
  have hcalls : (w.setDial d { x with result := x.result.or (some l) }).calls = w.calls := calls_setDial hx rfl
  refine h.grow prefix_rfl (hcalls ▸ prefix_rfl) h.sessions (hcalls ▸ h.calls) (fun _ _ _ hkept => hkept)
    (fun _ _ _ hl => .inl hl) (fun _ _ hd => .inl hd) (fun _ _ hd => .inl hd) fun d' l' hl' => ?_
  rcases gave_push hx hl' with hl' | ⟨rfl, rfl⟩
  · exact .inl hl'
  · obtain ⟨c, s, hserves, hkept⟩ := h.push l' d' hpush
    exact .inr ⟨c, s, hserves.mono prefix_rfl (hcalls ▸ prefix_rfl), hkept⟩

theorem new (self : η → Bytes) : Slots (World.new self) := by
  constructor <;> simp [World.new, newManager, World.calls, World.sessions, Gave]

variable [DecidableEq η]

theorem opened (h : Slots w) {a : Action η} {c : Call η} (hc : a.call? = some c) (hfresh : w.FreshID a) :
    Slots (w.dial c) := by
  have hcalls : (w.dial c).calls = w.calls ++ [c] := map_append
  have hlinks : ∀ x, ((w.dial c).managers x).links = (w.managers x).links := by
    intro x
    by_cases hx : x = c.host <;> simp [World.dial, setManager, hx]
  refine h.grow prefix_rfl ⟨[c], hcalls.symm⟩ h.sessions ?_ (fun l s _ hkept => ?_)
    (fun x id l hl => .inl (hlinks x ▸ hl)) (fun l d hd => .inl hd) (fun l d hd => .inl hd) ?_
  · intro c₁ h₁ c₂ h₂ hhost hid
    rw [hcalls, mem_append, mem_singleton] at h₁ h₂
    rcases h₁ with h₁ | rfl <;> rcases h₂ with h₂ | rfl
    · exact h.calls c₁ h₁ c₂ h₂ hhost hid
    · exact absurd hid (hfresh _ hc c₁ h₁ hhost)
    · exact absurd hid.symm (hfresh _ hc c₂ h₂ hhost.symm)
    · rfl
  · rwa [Kept, hlinks]
  · rintro d l ⟨x, hx, hgave⟩
    have hx := getElem?_append.symm.trans hx
    split at hx
    · exact .inl ⟨x, hx, hgave⟩
    · obtain rfl : _ = x := mem_singleton.mp (mem_of_getElem? hx) |>.symm
      simp [Dial.Gave] at hgave

theorem stored (h : Slots w) {t l : Nat} {dial : Option Nat} {s : Session η} {next : Thread η}
    (hstore : .store l dial ∈ w.threads) (hs : w.sessions[l]? = some s)
    (hnext : dial = none ∧ next = .notify l ∨ ∃ d, dial = some d ∧ next = .push l d) :
    Slots { w.enter l s with threads := w.threads.set t next } := by
  have hlinks := w.links_enter l s
  refine h.grow prefix_rfl prefix_rfl h.sessions h.calls (fun l' s' hs' hkept => ?_) (fun x id l' hl' => ?_)
    (fun l' d hd => ?_) (fun l' d hd => ?_) fun _ _ hl => .inl hl
  · refine hkept.imp id fun hl => (hlinks s'.mgr s'.id).trans ?_
    split
    · next heq => rw [h.unique hs hs' heq.1.symm heq.2.symm]
    · exact hl
  · have hl' := (hlinks x id).symm.trans hl'
    split at hl'
    next heq =>
      cases hl'
      exact .inr ⟨s, hs, heq.1.symm, heq.2.symm⟩
    · exact .inl hl'
  · rcases mem_or_eq_of_mem_set hd with hd | rfl
    · exact .inl hd
    · rcases hnext with ⟨_, heq⟩ | ⟨_, _, heq⟩ <;> cases heq
  · rcases mem_or_eq_of_mem_set hd with hd | rfl
    · exact .inl hd
    · rcases hnext with ⟨_, heq⟩ | ⟨d', hdial, heq⟩
      · cases heq
      · cases heq
        obtain ⟨c, s', hserves⟩ := h.store l d (hdial ▸ hstore)
        obtain rfl := mem_unique hs hserves.session
        exact .inr ⟨c, s, hserves.mono prefix_rfl prefix_rfl,
          .inr ((hlinks s.mgr s.id).trans (if_pos ⟨rfl, rfl⟩))⟩

theorem shut (h : Slots w) {l : Nat} {s : Session η} (hs : w.sessions[l]? = some s) : Slots (w.shut l s) := by
  have hlinks := w.links_shut l s
  refine h.grow prefix_rfl prefix_rfl h.sessions h.calls (fun l' s' hs' hkept => ?_) (fun x id l' hl' => ?_)
    (fun _ _ hd => .inl hd) (fun _ _ hd => .inl hd) fun _ _ hl => .inl hl
  · rcases hkept with hl | hl
    · exact .inl (mem_append_left _ hl)
    · by_cases heq : s'.mgr = s.mgr ∧ s'.id = s.id
      · rw [h.unique hs' hs heq.1 heq.2]
        exact .inl (mem_append_right _ (mem_singleton_self l))
      · exact .inr ((hlinks s'.mgr s'.id).trans ((if_neg heq).trans hl))
  · rw [hlinks] at hl'
    split at hl'
    · cases hl'
    · exact .inl hl'

theorem step (h : Slots w) {K : Bytes → Prop} (hprov : Provenance C K w) {a : Action η} (hfresh : w.FreshID a)
    (hsingle : w.Single a) (hu : w.step C a = some u) : Slots u := by
  cases moves hu with
  | quiet q => exact h.quiet q
  | opened c hc q => exact (h.opened hc hfresh).quiet q
  | requested c _ q | notified l _ q | handed l d s cb pt _ _ _ q =>
    exact h.keep q.sessions q.calls q.closed q.links (fun x hx => (q.threads x hx).imp id .inl) q.gave
  | @answered x addr req eph aead pr _ =>
    exact h.establish (s := ⟨req.linkID, aead, false, x⟩) (hsingle _ rfl) fun _ hd => nomatch hd
  | accepted d c aead hd hc _ =>
    obtain ⟨c', hc', hhost, hid⟩ := hprov.pending _ _ d hd
    refine h.establish (s := ⟨_, aead, true, _⟩) (hsingle _ (if_pos (hd ▸ rfl))) fun d' hd' => ?_
    cases hd'
    exact ⟨c', hc', rfl, hhost.symm, hid.symm⟩
  | found l _ =>
    refine h.keep rfl rfl rfl (fun _ => rfl) (fun x hx => ?_) fun _ _ hl => hl
    rcases mem_append.mp hx with hx | hx
    · exact .inl hx
    · exact .inr (.inr ⟨l, _, mem_singleton.mp hx⟩)
  | stored l dial s next hstore hs hnext => exact h.stored hstore hs hnext
  | pushed l d x hpush hx q => exact (h.pushed hpush hx).quiet q
  | sent x wire _ hx _ q =>
    exact h.keep (q.sessions.trans (sessions_setLink hx rfl)) q.calls q.closed q.links
      (fun x hx => (q.threads x hx).imp id .inl) q.gave
  | closed l s hs q => exact (h.shut hs).quiet q

end Slots

/-! ### What the callbacks get -/

/-- Whatever was sent on the first link reaches the callback of the second when it is delivered. --/
def Carries [DecidableEq η] (C : Crypto) (w : World η) (l r : Nat) : Prop :=
  ∀ y ∈ w.sends, y.link = l → ∀ x cb, w.heap[r]? = some x → x.onData = some cb →
    ∃ u, exec (step C) w [.deliverData x.mgr y.packet, .resume w.threads.length] = some u ∧
      u.handed = w.handed ++ [⟨r, cb, y.data⟩]

theorem exists_link {l : Nat} {s : Session η} (hs : w.sessions[l]? = some s) :
    ∃ x, w.heap[l]? = some x ∧ x.toSession = s :=
  map_eq_some_iff.mp (getElem?_map.symm.trans hs)

theorem resume_opening [DecidableEq η] {t l : Nat} {d : DataPayload} {x : Link η} {pt : Bytes} {cb : Callback}
    (hx : w.heap[l]? = some x) (hopen : C.gcmOpen x.aead d.nonce d.cipher = some pt) (hcb : x.onData = some cb) :
    w.resume C t (.opening l d) =
      some { w with threads := w.threads.set t .done, handed := w.handed ++ [⟨l, cb, pt⟩] } := by
  simp [resume, hx, hopen, hcb]

end World

/-- What the documentation of the standard library has: both sides of an exchange compute one secret,
    and a sealed text opens under its key and nonce. --/
structure Crypto.Lawful (C : Crypto) : Prop where
  ecdh_comm : ∀ a b, C.ecdh a (C.publicKey b) = C.ecdh b (C.publicKey a)
  open_seal : ∀ key nonce pt, C.gcmOpen key nonce (C.gcmSeal key nonce pt) = some pt

theorem sharedAEAD_eq {C : Crypto} (hC : C.Lawful) {a b k k' : Bytes} {id : LinkID}
    (hk : sharedAEAD C a (C.publicKey b) id = some k) (hk' : sharedAEAD C b (C.publicKey a) id = some k') : k = k' := by
  have hsecret : ∀ {a b k}, sharedAEAD C a (C.publicKey b) id = some k →
      (C.ecdh a (C.publicKey b)).map (deriveAEAD C · id) = some k := by
    intro a b k hk
    rw [sharedAEAD, newPublicKey] at hk
    split at hk
    · exact hk
    · cases hk
  have hab := hsecret hk
  rw [hC.ecdh_comm] at hab
  exact mem_unique hab (hsecret hk')

/-! ### A handshake with real keys -/

namespace Sample

def linkID : LinkID := FixedBytes.copy 16 [7]

def ephOne : Bytes := List.replicate 32 1
def ephTwo : Bytes := List.replicate 32 2
def ephThree : Bytes := List.replicate 32 3

def pubOne : Bytes := beBytes 32 0xa4e09292b651c278b9772c569f5fa9bb13d906b46ab68c9df9dc2b4409f8a209
def pubTwo : Bytes := beBytes 32 0xce8d3ad1ccb633ec7b70c17814a5c76ecd029685050d344745ba05870e587d59
def pubThree : Bytes := beBytes 32 0x5dfedd3b6bd47f6fa28ee15d969d5bb0ea53774d488bdaf9df1c6e0124b3ef22

def secretTwo : Bytes := beBytes 32 0x2ed76ab549b1e73c031eb49c9448f0798aea81b698279a0c3dc3e49fbfc4b953
def secretThree : Bytes := beBytes 32 0xb0190541a2abb8bc163b6eef0fae7ba0179004b444326f73809563164d47c521
def keyTwo : Bytes := beBytes 32 0x050b2a33e4ecd61cd923868309baeb44c465c95503f494fd02485c916b6eb3fd
def keyThree : Bytes := beBytes 32 0xc097769e68a246347ee637cbfe2037e64ed9307dfb2a9a5699f3f6d1b857dc4d

def signPub : Bytes := beBytes 32 0xfd1724385aa0c75b64fb78cd602fa1d991fdebf76b13c58ed702eac835e9f618
def signatureTwo : Bytes :=
  beBytes 32 0x06d86341a7a958e9a15ab92f2d66a7e4f5914cf409a9e91f6efe009f4fe561cc ++
  beBytes 32 0x5bf55b685dd2a806ade00db939e799f474b5e30e9be2dd28613e7f33fc1de20e
def signatureThree : Bytes :=
  beBytes 32 0x5b4e900845a1c52a0f2671d6bbb118bb8a01295b6ebfe7698c01af06dbe2549e ++
  beBytes 32 0x5f284449bdf505fb3bf2f4ce937af766a92e3d4914255012e35b3801ea5a5d00

def message : Bytes := [104, 105]
def nonce : Bytes := [1, 0, 0, 0, 0, 0, 0, 0, 0, 0, 0, 1]
def sealed : Bytes :=
  [205, 170, 105, 134, 27, 199, 10, 162, 224, 123, 252, 103, 0, 180, 16, 39, 52, 125]

def crypto : Crypto where
  publicKey k := if k = ephOne then pubOne else if k = ephTwo then pubTwo else if k = ephThree then pubThree else []
  ecdh k p :=
    if k = ephOne ∧ p = pubTwo ∨ k = ephTwo ∧ p = pubOne then some secretTwo
    else if k = ephOne ∧ p = pubThree ∨ k = ephThree ∧ p = pubOne then some secretThree
    else none
  sign _ m :=
    if m = proofTranscript linkID pubTwo then signatureTwo
    else if m = proofTranscript linkID pubThree then signatureThree else []
  verify k m sig := k = signPub ∧
    (m = proofTranscript linkID pubTwo ∧ sig = signatureTwo ∨ m = proofTranscript linkID pubThree ∧
      sig = signatureThree)
  hkdf secret salt _ _ :=
    if salt = linkID.val ∧ secret = secretTwo then keyTwo
    else if salt = linkID.val ∧ secret = secretThree then keyThree
    else salt ++ secret
  gcmSeal key n pt := if key = keyTwo ∧ n = nonce ∧ pt = message then sealed else 0 :: pt
  gcmOpen key n ct := if key = keyTwo ∧ n = nonce ∧ ct = sealed then some message
    else if ct.head? = some 0 then some ct.tail else none

theorem publicKey_iff (k : Bytes) : (crypto.publicKey k = pubOne ↔ k = ephOne) ∧
    (crypto.publicKey k = pubTwo ↔ k = ephTwo) ∧ (crypto.publicKey k = pubThree ↔ k = ephThree) := by
  by_cases h₁ : k = ephOne
  · subst h₁
    decide
  by_cases h₂ : k = ephTwo
  · subst h₂
    decide
  by_cases h₃ : k = ephThree
  · subst h₃
    decide
  have hk : crypto.publicKey k = [] := by simp [crypto, h₁, h₂, h₃]
  simp [hk, h₁, h₂, h₃, pubOne, pubTwo, pubThree, beBytes]

theorem crypto_lawful : crypto.Lawful where
  ecdh_comm a b := by
    obtain ⟨ha₁, ha₂, ha₃⟩ := publicKey_iff a
    obtain ⟨hb₁, hb₂, hb₃⟩ := publicKey_iff b
    simp only [crypto] at *
    simp only [ha₁, ha₂, ha₃, hb₁, hb₂, hb₃, and_comm, or_comm]
  open_seal key n pt := by
    simp only [crypto]
    split
    · next h => simp [h]
    next h =>
      have hne : ¬(key = keyTwo ∧ n = nonce ∧ 0 :: pt = sealed) := fun h => nomatch h.2.2
      simp [hne]

def self : Party → Bytes
  | .one => []
  | .two => List.replicate 32 9 ++ signPub

def request : RequestPayload := ⟨linkID, pubOne⟩

def proofTwo : ProofPayload := ⟨linkID, pubTwo, signatureTwo⟩

def dialling : List (Action Party) :=
  [.onInboundLink .two, .dial .one "two:7000" signPub linkID ephOne, .sendRequest 0 true,
    .deliverRequest .two "one:7000" request ephTwo true, .resume 0, .resume 0]

/-- The handshake up to the return of `Dial`, callbacks on both links, and a message from the first host. --/
def handshake : List (Action Party) :=
  dialling ++ [.deliverProof .one proofTwo, .resume 1, .resume 1, .receive 0, .leave 0, .onData 0 5, .onData 1 6,
    .send 1 message true]

def rekeying : List (Action Party) :=
  dialling ++ [.deliverProof .one proofTwo, .resume 1, .resume 1, .receive 0, .leave 0,
    .deliverRequest .two "one:7000" request ephThree true, .resume 2]

def displacing : List (Action Party) :=
  dialling ++ [.deliverProof .one proofTwo, .resume 1, .resume 1, .deliverProof .one proofTwo, .resume 2,
    .receive 0, .leave 0]

end Sample

namespace World
variable {C : Crypto} {K : Bytes → Prop}

theorem carries [DecidableEq η] {w : World η} (hC : C.Lawful) (hprov : Provenance C K w) {l r : Nat} {s t : Session η}
    (hs : w.sessions[l]? = some s) (ht : w.sessions[r]? = some t) (haead : t.aead = s.aead)
    (hr : (w.managers t.mgr).links.get? s.id = some r) : w.Carries C l r := by
  intro y hy hl x cb hx hcb
  obtain ⟨s', hs', ctr, hpacket⟩ := hprov.sends y hy
  obtain rfl := mem_unique hs (hl ▸ hs')
  obtain rfl := mem_unique (getElem?_sessions hx) ht
  have hfound : w.step C (.deliverData x.mgr y.packet) =
      some { w with threads := w.threads ++ [.opening r y.packet] } := by
    rw [step, hpacket]
    dsimp only
    rw [hr]
  have hopen : C.gcmOpen x.aead y.packet.nonce y.packet.cipher = some y.data := by
    rw [hpacket, haead]
    exact hC.open_seal _ _ _
  let v : World η := { w with threads := w.threads ++ [.opening r y.packet] }
  have hhand : v.step C (.resume w.threads.length) =
      some { v with threads := v.threads.set w.threads.length .done, handed := w.handed ++ [⟨r, cb, y.data⟩] } := by
    rw [step, getElem?_concat_length]
    exact resume_opening hx hopen hcb
  exact ⟨_, exec_cons.mpr ⟨v, hfound, exec_single.mpr hhand⟩, rfl⟩

/-- The links of two hosts for one ID have one key, if a dial made the first of them. --/
theorem same_key (hC : C.Lawful) {w : World Party} (hprov : Provenance C K w) (hslots : Slots w) {l r : Nat}
    {s t : Session Party} (hs : w.sessions[l]? = some s) (hinit : s.initiator = true) (ht : w.sessions[r]? = some t)
    (hmgr : t.mgr = s.mgr.other) (hid : t.id = s.id) : t.aead = s.aead := by
  obtain ⟨c, hc, pr, hmakes, x, hx, hsrc, hpacket⟩ := hprov.initiator s (mem_of_getElem? hs) hinit
  obtain ⟨t', ht', htx, c', hc', e, hans⟩ := hprov.proof x hx pr hpacket
  obtain ⟨r', hr'⟩ := mem_iff_getElem?.mp ht'
  have htid : t'.id = s.id := hans.proof.symm.trans hmakes.proof
  have htmgr : t'.mgr = s.mgr.other := htx.trans (Party.eq_other hsrc)
  -- A host has one link for an ID, so the link that the proof announced is the one in the table.
  obtain rfl : r' = r := hslots.unique hr' ht (htmgr.trans hmgr.symm) (htid.trans hid.symm)
  obtain rfl := mem_unique hr' ht
  -- And it draws an ID once, so the dial that the other host answered is the one that made the link.
  have hhost : c'.host = s.mgr := by
    rw [Party.eq_other hans.host, hmgr, Party.other_other]
  obtain rfl : c = c' :=
    hslots.calls c hc c' hc' (hmakes.host.trans hhost.symm) (hmakes.call.trans (hans.call.trans hid).symm)
  have hmine := hmakes.aead
  rw [hans.ephPub] at hmine
  have hyours := hans.aead
  rw [hid] at hyours
  exact sharedAEAD_eq hC hyours hmine

theorem provenance_slots [DecidableEq η] {self : η → Bytes} {acts : List (Action η)} {w : World η}
    (hrun : exec (step C) (World.new self) acts = some w)
    (hnet : Along (step C) (fun w a => w.Honest a ∧ w.FreshID a) (World.new self) acts)
    (hsingle : Along (step C) Single (World.new self) acts) : Provenance C (fun _ => True) w ∧ Slots w := by
  refine exec_keeps_along (P := fun w => Provenance C (fun _ => True) w ∧ Slots w) ?_
    ⟨Provenance.new self, Slots.new self⟩
    (hnet.and hsingle) hrun
  rintro w a u ⟨⟨hhonest, hfresh⟩, hsingle⟩ ⟨hprov, hslots⟩ hu
  exact ⟨hprov.step (fun _ _ => trivial) hhonest hu, hslots.step hprov hfresh hsingle hu⟩

/-- In every run of two hosts in which no handler runs for an ID of which its host has a link already:
    when `Dial` has returned a link that nobody closed and the other host has a link of the same ID in
    its table, the two have the same key, the table of the dialling host has the link that `Dial`
    returned, and what is sent on either reaches the callback of the other. --/
theorem agreement (hC : C.Lawful) {self : Party → Bytes} {acts : List (Action Party)} {w : World Party}
    (hrun : exec (step C) (World.new self) acts = some w)
    (hnet : Along (step C) (fun w a => w.Honest a ∧ w.FreshID a) (World.new self) acts)
    (hsingle : Along (step C) Single (World.new self) acts) {z : Dial Party} (hz : z ∈ w.dials) {l r : Nat}
    (hreturned : z.phase = .returned (some l)) (hopen : l ∉ w.closed)
    (hr : (w.managers z.host.other).links.get? z.id = some r) :
    ∃ x y, w.heap[l]? = some x ∧ w.heap[r]? = some y ∧ x.id = z.id ∧ x.aead = y.aead ∧
      (w.managers z.host).links.get? z.id = some l ∧ w.Carries C l r ∧ w.Carries C r l := by
  obtain ⟨hprov, hslots⟩ := provenance_slots hrun hnet hsingle
  obtain ⟨d, hd⟩ := mem_iff_getElem?.mp hz
  obtain ⟨c, s, hserves, hkept⟩ := hslots.gave d l ⟨z, hd, .inr (.inr hreturned)⟩
  obtain rfl := mem_unique (getElem?_calls hd) hserves.call
  have hlive : (w.managers s.mgr).links.get? s.id = some l := hkept.resolve_left hopen
  obtain ⟨t, ht, htmgr, htid⟩ := hslots.table _ _ r hr
  have hid : t.id = s.id := htid.trans hserves.id.symm
  have hmgr : t.mgr = s.mgr.other := by rw [htmgr, hserves.host]
  have haead : t.aead = s.aead := same_key hC hprov hslots hserves.session hserves.initiator ht hmgr hid
  obtain ⟨x, hx, rfl⟩ := exists_link hserves.session
  obtain ⟨y, hy, rfl⟩ := exists_link ht
  refine ⟨x, y, hx, hy, hserves.id, haead.symm, ?_, ?_, ?_⟩
  · rwa [← hserves.host, ← hserves.id]
  · exact carries hC hprov hserves.session ht haead (by rwa [htmgr, hserves.id])
  · exact carries hC hprov ht hserves.session haead.symm (by rwa [hid])

theorem agreement_handshake : ∃ w, exec (step Sample.crypto) (World.new Sample.self) Sample.handshake = some w ∧
    (w.managers .one).links.get? Sample.linkID = some 1 ∧ w.Carries Sample.crypto 1 0 ∧
      w.Carries Sample.crypto 0 1 := by
  have hrun : exec (step Sample.crypto) (World.new Sample.self) Sample.handshake = some _ := rfl
  obtain ⟨x, y, -, -, -, -, hlive, hthere, hback⟩ :=
    agreement Sample.crypto_lawful hrun (by decide) (by decide) mem_cons_self rfl not_mem_nil rfl
  exact ⟨_, hrun, hlive, hthere, hback⟩

/-- A request that arrives again after the handshake gives the answering host a link with another key; a proof
    that arrives again before `Dial` leaves gives the dialling host another link than `Dial` returns. --/
theorem rekeyed_and_displaced :
    (∃ w z x y, exec (step Sample.crypto) (World.new Sample.self) Sample.rekeying = some w ∧
      Along (step Sample.crypto) (fun w a => w.Honest a ∧ w.FreshID a) (World.new Sample.self) Sample.rekeying ∧
      z ∈ w.dials ∧ z.phase = .returned (some 1) ∧ w.closed = [] ∧ w.heap[1]? = some x ∧
      (w.managers z.host.other).links.get? z.id = some 2 ∧ w.heap[2]? = some y ∧ x.aead ≠ y.aead) ∧
    (∃ w z, exec (step Sample.crypto) (World.new Sample.self) Sample.displacing = some w ∧
      Along (step Sample.crypto) (fun w a => w.Honest a ∧ w.FreshID a) (World.new Sample.self) Sample.displacing ∧
      z ∈ w.dials ∧ z.phase = .returned (some 1) ∧ w.closed = [] ∧
      (w.managers z.host.other).links.get? z.id = some 0 ∧ (w.managers z.host).links.get? z.id = some 2) := by
  have hrekeying : exec (step Sample.crypto) (World.new Sample.self) Sample.rekeying = some _ := rfl
  have hdisplacing : exec (step Sample.crypto) (World.new Sample.self) Sample.displacing = some _ := rfl
  exact ⟨⟨_, _, _, _, hrekeying, by decide, mem_cons_self, rfl, rfl, rfl, rfl, rfl, by decide⟩,
    ⟨_, _, hdisplacing, by decide, mem_cons_self, rfl, rfl, rfl, rfl⟩⟩

end World
end SyncSwarm.Link
