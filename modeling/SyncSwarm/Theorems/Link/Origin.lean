import SyncSwarm.Theorems.Link.Agreement

/-! Where the data of a link comes from. Both ends seal under one key, and the receiving end does not look at the byte
    of the nonce that tells which of them did. -/

namespace SyncSwarm.Link
open Lib List Option

variable {η : Type}

def LinkPacket.proofPub? : LinkPacket → Option Bytes
  | .proof pr => some pr.ephPub
  | _ => none

def Action.data? : Action η → Option (η × DataPayload)
  | .deliverData h d => some (h, d)
  | _ => none

/-- Distinct pairs of the ephemeral keys that are drawn, or distinct link IDs, give distinct link keys. --/
def Crypto.Separates (C : Crypto) (K : Bytes → Prop) : Prop :=
  ∀ a b c d id id' k, K a → K b → K c → K d → sharedAEAD C a (C.publicKey b) id = some k →
    sharedAEAD C c (C.publicKey d) id' = some k →
    id = id' ∧ (C.publicKey a = C.publicKey c ∧ C.publicKey b = C.publicKey d ∨
      C.publicKey a = C.publicKey d ∧ C.publicKey b = C.publicKey c)

namespace World
variable {C : Crypto} {K : Bytes → Prop} {w u : World η}

/-- An ephemeral key is drawn that nobody has used. --/
def FreshKey (C : Crypto) (w : World η) (a : Action η) : Prop :=
  ∀ e ∈ a.eph?, (∀ c ∈ w.calls, C.publicKey c.eph ≠ C.publicKey e) ∧
    ∀ x ∈ w.wire, x.packet.proofPub? ≠ some (C.publicKey e)

def opens? (w : World η) : Action η → Option (Nat × DataPayload)
  | .resume t => match w.threads[t]? with
    | some (.opening l d) => some (l, d)
    | _ => none
  | _ => none

/-- Nobody forges: what opens under the key of a link was sealed by a `Send` under that key. --/
def Unforged (C : Crypto) (w : World η) (a : Action η) : Prop :=
  ∀ p ∈ w.opens? a, ∀ s ∈ w.sessions[p.1]?, (C.gcmOpen s.aead p.2.nonce p.2.cipher).isSome →
    ∃ y ∈ w.sends, y.packet.nonce = p.2.nonce ∧ y.packet.cipher = p.2.cipher ∧
      ∃ s' ∈ w.sessions[y.link]?, s'.aead = s.aead

/-- The nonce does not have the direction byte that the link gives its own packets. --/
def Foreign (s : Session η) (d : DataPayload) : Prop := d.nonce.head? ≠ some (Link.direction s.initiator)

/-- No data packet reaches a link that marks its own packets alike. --/
def Unreflected (w : World η) (a : Action η) : Prop :=
  ∀ p ∈ a.data?, ∀ l ∈ (w.managers p.1).links.get? p.2.linkID, ∀ s ∈ w.sessions[l]?, Foreign s p.2

/-- The two ends of one link. --/
structure Ends (s t : Session η) : Prop where
  id : s.id = t.id
  aead : s.aead = t.aead
  initiator : s.initiator ≠ t.initiator
  mgr : s.mgr ≠ t.mgr

/-- The invariant: what was handed over came from the other end. --/
structure Origin (C : Crypto) (w : World η) : Prop where
  calls : ∀ c ∈ w.calls, ∀ c' ∈ w.calls, C.publicKey c.eph = C.publicKey c'.eph → c.host = c'.host
  proofs : ∀ x ∈ w.wire, ∀ c ∈ w.calls, x.packet.proofPub? ≠ some (C.publicKey c.eph)
  table : ∀ h id l, (w.managers h).links.get? id = some l → ∃ s, w.sessions[l]? = some s
  opening : ∀ l d, .opening l d ∈ w.threads → ∃ s, w.sessions[l]? = some s ∧ Foreign s d
  handed : ∀ x ∈ w.handed, ∃ y ∈ w.sends, y.data = x.data ∧
    ∃ s t, w.sessions[y.link]? = some s ∧ w.sessions[x.link]? = some t ∧ Ends s t

theorem ends_of_aead (hsep : C.Separates K) (hprov : Provenance C K w) (horigin : Origin C w) {s t : Session η}
    (hs : s ∈ w.sessions) (ht : t ∈ w.sessions) (hinit : s.initiator = true) (hresp : t.initiator = false)
    (haead : s.aead = t.aead) : Ends s t := by
  obtain ⟨c, hc, pr, hmakes, x, hx, -, hpr⟩ := hprov.initiator s hs hinit
  obtain ⟨_, _, _, _, _, e, hans⟩ := hprov.proof x hx pr hpr
  obtain ⟨c', hc', pr', e', hans', x', hx', -, hpr'⟩ := hprov.responder t ht hresp
  have hmine := hmakes.aead
  rw [hans.ephPub, haead] at hmine
  obtain ⟨hid, hpub | hpub⟩ := hsep _ _ _ _ _ _ _ (hprov.calls c hc) hans.drawn hans'.drawn (hprov.calls c' hc') hmine
    hans'.aead
  · -- The key of a dial is not the key of an answer.
    refine absurd ?_ (horigin.proofs x' hx' c hc)
    rw [hpr', LinkPacket.proofPub?, hans'.ephPub, hpub.1]
  · refine ⟨hid, haead, by rw [hinit, hresp]; decide, ?_⟩
    rw [← hmakes.host, horigin.calls c hc c' hc' hpub.1]
    exact hans'.host

theorem Ends.symm {s t : Session η} (h : Ends s t) : Ends t s :=
  ⟨h.id.symm, h.aead.symm, h.initiator.symm, h.mgr.symm⟩

namespace Origin

theorem grow (h : Origin C w) (hs : w.sessions <+: u.sessions) (hsends : w.sends ⊆ u.sends)
    (calls : ∀ c ∈ u.calls, ∀ c' ∈ u.calls, C.publicKey c.eph = C.publicKey c'.eph → c.host = c'.host)
    (proofs : ∀ x ∈ u.wire, ∀ c ∈ u.calls, x.packet.proofPub? ≠ some (C.publicKey c.eph))
    (table : ∀ x id l, (u.managers x).links.get? id = some l → (w.managers x).links.get? id = some l ∨
      ∃ s, u.sessions[l]? = some s)
    (opening : ∀ l d, .opening l d ∈ u.threads → .opening l d ∈ w.threads ∨ ∃ s, u.sessions[l]? = some s ∧ Foreign s d)
    (handed : ∀ x ∈ u.handed, x ∈ w.handed ∨ ∃ y ∈ u.sends, y.data = x.data ∧
      ∃ s t, u.sessions[y.link]? = some s ∧ u.sessions[x.link]? = some t ∧ Ends s t) : Origin C u where
  calls := calls
  proofs := proofs
  table x id l hl := by
    rcases table x id l hl with hl | hl
    · obtain ⟨s, hsl⟩ := h.table x id l hl
      exact ⟨s, getElem?_mono hs hsl⟩
    · exact hl
  opening l d hd := by
    rcases opening l d hd with hd | hd
    · obtain ⟨s, hsl, hforeign⟩ := h.opening l d hd
      exact ⟨s, getElem?_mono hs hsl, hforeign⟩
    · exact hd
  handed x hx := by
    rcases handed x hx with hx | hx
    · obtain ⟨y, hy, hdata, s, t, hys, hxt, hends⟩ := h.handed x hx
      exact ⟨y, hsends hy, hdata, s, t, getElem?_mono hs hys, getElem?_mono hs hxt, hends⟩
    · exact hx

theorem keep (h : Origin C w) (hsessions : u.sessions = w.sessions) (hcalls : u.calls = w.calls)
    (hwire : u.wire = w.wire) (hsends : u.sends = w.sends) (hhanded : u.handed = w.handed)
    (hlinks : ∀ x, (u.managers x).links = (w.managers x).links) (hthreads : ∀ x ∈ u.threads, x ∈ w.threads ∨ x.Idle) :
    Origin C u := by
  refine h.grow (hsessions ▸ prefix_rfl) (hsends ▸ List.Subset.refl _) (hcalls ▸ h.calls)
    (hcalls ▸ hwire ▸ h.proofs) (fun x id l hl => .inl (hlinks x ▸ hl)) (fun l d hd => ?_) fun x hx =>
      .inl (hhanded ▸ hx)
  exact (hthreads _ hd).elim .inl fun hidle => hidle.elim

theorem quiet (h : Origin C w) (q : Quiet w u) : Origin C u :=
  h.keep q.sessions q.calls q.wire q.sends q.handed q.links q.threads

theorem sent (h : Origin C w) {sends : List Sending} {wire : List (Sent η)}
    (hwire : ∀ x ∈ wire, x.packet.proofPub? = none) :
    Origin C { w with sends := w.sends ++ sends, wire := w.wire ++ wire } := by
  refine h.grow prefix_rfl (subset_append_left _ _) h.calls (fun x hx c hc => ?_) (fun _ _ _ hl => .inl hl)
    (fun _ _ hd => .inl hd) fun _ hx => .inl hx
  rcases mem_append.mp hx with hx | hx
  · exact h.proofs x hx c hc
  · rw [hwire x hx]
    exact fun heq => nomatch heq

theorem handOver (h : Origin C w) (hsep : C.Separates K) (hC : C.Lawful) (hprov : Provenance C K w) {t l : Nat}
    {d : DataPayload} {s : Session η} {cb : Callback} {pt : Bytes} (hunforged : w.Unforged C (.resume t))
    (ht : w.threads[t]? = some (.opening l d)) (hs : w.sessions[l]? = some s)
    (hopen : C.gcmOpen s.aead d.nonce d.cipher = some pt) :
    Origin C { w with handed := w.handed ++ [⟨l, cb, pt⟩] } := by
  refine h.grow prefix_rfl (List.Subset.refl _) h.calls h.proofs (fun _ _ _ hl => .inl hl) (fun _ _ hd => .inl hd) ?_
  intro x hx
  rcases mem_append.mp hx with hx | hx
  · exact .inl hx
  obtain rfl := mem_singleton.mp hx
  have hopens : w.opens? (.resume t) = some (l, d) := by simp [opens?, ht]
  obtain ⟨y, hy, hnonce, hcipher, s', hs', haead⟩ := hunforged _ hopens s hs (hopen ▸ rfl)
  obtain ⟨s'', hs'', ctr, hpacket⟩ := hprov.sends y hy
  obtain rfl := mem_unique hs' hs''
  rw [hpacket] at hnonce hcipher
  dsimp only at hnonce hcipher
  have hdata : y.data = pt := by
    have hseal := hC.open_seal s'.aead (Link.nonce s'.initiator ctr) y.data
    rw [hcipher, hnonce, haead, hopen] at hseal
    exact (Option.some.inj hseal).symm
  have hdir : s'.initiator ≠ s.initiator := by
    obtain ⟨s₀, hs₀, hforeign⟩ := h.opening l d (mem_of_getElem? ht)
    obtain rfl := mem_unique hs hs₀
    intro heq
    rw [Foreign, ← hnonce, ← heq] at hforeign
    exact hforeign rfl
  refine .inr ⟨y, hy, hdata, s', s, hs', hs, ?_⟩
  have hmem := mem_of_getElem? hs
  have hmem' := mem_of_getElem? hs'
  cases hinit : s'.initiator with
  | true =>
    have hresp : s.initiator = false := by simpa [hinit] using hdir.symm
    exact ends_of_aead hsep hprov h hmem' hmem hinit hresp haead
  | false =>
    have hinit' : s.initiator = true := by simpa [hinit] using hdir.symm
    exact (ends_of_aead hsep hprov h hmem hmem' hinit' hinit haead.symm).symm

theorem new (self : η → Bytes) : Origin C (World.new self) := by
  constructor <;> simp [World.new, newManager, World.calls]

variable [DecidableEq η]

theorem opened (h : Origin C w) {a : Action η} {c : Call η} (hc : a.call? = some c) (hfresh : w.FreshKey C a) :
    Origin C (w.dial c) := by
  have hcalls : (w.dial c).calls = w.calls ++ [c] := map_append
  obtain ⟨hold, hwire⟩ := hfresh c.eph (Action.eph?_of_call? hc)
  refine h.grow prefix_rfl (List.Subset.refl _) ?_ ?_ (fun x id l hl => .inl ?_) (fun _ _ hd => .inl hd)
    fun _ hx => .inl hx
  · intro c₁ h₁ c₂ h₂ hpub
    rw [hcalls, mem_append, mem_singleton] at h₁ h₂
    rcases h₁ with h₁ | rfl <;> rcases h₂ with h₂ | rfl
    · exact h.calls c₁ h₁ c₂ h₂ hpub
    · exact absurd hpub (hold c₁ h₁)
    · exact absurd hpub.symm (hold c₂ h₂)
    · rfl
  · intro x hx c' hc'
    rw [hcalls, mem_append, mem_singleton] at hc'
    rcases hc' with hc' | rfl
    · exact h.proofs x hx c' hc'
    · exact hwire x hx
  · by_cases hx : x = c.host <;> simpa [World.dial, setManager, hx] using hl

theorem step (h : Origin C w) (hsep : C.Separates K) (hC : C.Lawful) (hprov : Provenance C K w) {a : Action η}
    (hfresh : w.FreshKey C a) (hunforged : w.Unforged C a) (hforeign : w.Unreflected a) (hu : w.step C a = some u) :
    Origin C u := by
  cases moves hu with
  | quiet q => exact h.quiet q
  | opened c hc q => exact (h.opened hc hfresh).quiet q
  | requested c _ q =>
    let request : Sent η := ⟨c.host, c.addr, .request ⟨c.id, C.publicKey c.eph⟩⟩
    have hsent : Origin C { w with sends := w.sends ++ [], wire := w.wire ++ [request] } :=
      h.sent fun x hx => mem_singleton.mp hx ▸ rfl
    rw [append_nil] at hsent
    exact hsent.quiet q
  | @answered x addr req eph aead pr hans =>
    obtain ⟨-, -, hpub⟩ := answer_some hans
    refine h.grow ⟨_, (Provenance.sessions_establish _ addr none).symm⟩ (List.Subset.refl _) h.calls ?_
      (fun _ _ _ hl => .inl hl)
      (fun l d hd => .inl ?_) fun _ hx => .inl hx
    · intro y hy c hc
      rcases mem_append.mp hy with hy | hy
      · exact h.proofs y hy c hc
      · rw [mem_singleton.mp hy, LinkPacket.proofPub?, hpub]
        exact fun heq => (hfresh eph rfl).1 c hc (Option.some.inj heq).symm
    · exact (mem_append.mp hd).resolve_right fun hd => nomatch mem_singleton.mp hd
  | accepted d c aead _ _ _ =>
    refine h.grow ⟨_, (Provenance.sessions_establish _ "" (some d)).symm⟩ (List.Subset.refl _) h.calls h.proofs
      (fun _ _ _ hl => .inl hl) (fun l d hd => .inl ?_) fun _ hx => .inl hx
    exact (mem_append.mp hd).resolve_right fun hd => nomatch mem_singleton.mp hd
  | found l hl =>
    obtain ⟨s, hs⟩ := h.table _ _ l hl
    refine h.grow prefix_rfl (List.Subset.refl _) h.calls h.proofs (fun _ _ _ hl => .inl hl) (fun l' d' hd' => ?_)
      fun _ hx => .inl hx
    rcases mem_append.mp hd' with hd' | hd'
    · exact .inl hd'
    · cases mem_singleton.mp hd'
      exact .inr ⟨s, hs, hforeign _ rfl l hl s hs⟩
  | stored l dial s next _ hs hnext =>
    refine h.grow prefix_rfl (List.Subset.refl _) h.calls h.proofs (fun x id l' hl' => ?_) (fun l' d' hd' => ?_)
      fun _ hx => .inl hx
    · have hl' := (w.links_enter l s x id).symm.trans hl'
      split at hl'
      · cases hl'
        exact .inr ⟨s, hs⟩
      · exact .inl hl'
    · rcases mem_or_eq_of_mem_set hd' with hd' | rfl
      · exact .inl hd'
      · rcases hnext with ⟨_, heq⟩ | ⟨_, _, heq⟩ <;> cases heq
  | notified l _ q => exact h.keep q.sessions q.calls q.wire q.sends q.handed q.links q.threads
  | pushed l d x _ hx q =>
    have hcalls : (w.setDial d { x with result := x.result.or (some l) }).calls = w.calls := calls_setDial hx rfl
    have hpushed : Origin C (w.setDial d { x with result := x.result.or (some l) }) :=
      ⟨hcalls ▸ h.calls, hcalls ▸ h.proofs, h.table, h.opening, h.handed⟩
    exact hpushed.quiet q
  | handed l d s cb pt ht hs hopen q => exact (h.handOver hsep hC hprov hunforged ht hs hopen).quiet q
  | sent x wire _ hx hwire q =>
    refine (h.sent fun y hy => ?_).keep (q.sessions.trans (sessions_setLink hx rfl)) q.calls q.wire q.sends q.handed
      q.links q.threads
    obtain ⟨d, hd⟩ := hwire y hy
    rw [hd]
    rfl
  | closed l s _ q =>
    have hshut : Origin C (w.shut l s) := by
      refine h.grow prefix_rfl (List.Subset.refl _) h.calls h.proofs (fun x id l' hl' => .inl ?_)
        (fun _ _ hd => .inl hd) fun _ hx => .inl hx
      rw [w.links_shut] at hl'
      split at hl'
      · cases hl'
      · exact hl'
    exact hshut.quiet q

end Origin

section
variable [DecidableEq η]

instance (w : World η) (a : Action η) : Decidable (w.FreshKey C a) :=
  inferInstanceAs (Decidable (∀ e ∈ a.eph?, (∀ c ∈ w.calls, _ ≠ _) ∧ ∀ x ∈ w.wire, _ ≠ _))

instance (w : World η) (a : Action η) : Decidable (w.Unforged C a) :=
  inferInstanceAs (Decidable (∀ p ∈ w.opens? a, ∀ s ∈ w.sessions[p.1]?, _ → ∃ y ∈ w.sends, _ ∧ _ ∧
    ∃ s' ∈ w.sessions[y.link]?, s'.aead = s.aead))

instance (w : World η) (a : Action η) : Decidable (w.Unreflected a) :=
  inferInstanceAs (Decidable (∀ p ∈ a.data?, ∀ l ∈ (w.managers p.1).links.get? p.2.linkID, ∀ s ∈ w.sessions[l]?, _ ≠ _))

end

/-- In every run in which no data packet meets a link whose own direction byte it has, whatever a callback
    gets was given to `Send` at the other end of its link: a link of another host with the same ID and key. --/
theorem data_from_other_end [DecidableEq η] {acts : List (Action η)}
    (hsep : C.Separates fun e => ∃ a ∈ acts, a.eph? = some e) (hC : C.Lawful) {self : η → Bytes} {w : World η}
    (hrun : exec (step C) (World.new self) acts = some w)
    (hnet : Along (step C) (fun w a => w.Honest a ∧ w.FreshKey C a ∧ w.Unforged C a) (World.new self) acts)
    (hdir : Along (step C) Unreflected (World.new self) acts) :
    ∀ x ∈ w.handed, ∃ y ∈ w.sends, y.data = x.data ∧
      ∃ s t, w.sessions[y.link]? = some s ∧ w.sessions[x.link]? = some t ∧ Ends s t := by
  have hdrawn : Along (step C) (fun _ a => ∀ e ∈ a.eph?, ∃ a ∈ acts, a.eph? = some e) (World.new self) acts :=
    Along.of_forall fun a ha _ e he => ⟨a, ha, he⟩
  have hinv : Provenance C (fun e => ∃ a ∈ acts, a.eph? = some e) w ∧ Origin C w := by
    refine exec_keeps_along (P := fun w => Provenance C _ w ∧ Origin C w) ?_ ⟨Provenance.new self, Origin.new self⟩
      ((hnet.and hdir).and hdrawn) hrun
    rintro w a u ⟨⟨⟨hhonest, hfresh, hunforged⟩, hforeign⟩, hdrawn⟩ ⟨hprov, horigin⟩ hu
    exact ⟨hprov.step hdrawn hhonest hu, horigin.step hsep hC hprov hfresh hunforged hforeign hu⟩
  exact hinv.2.handed

end World

/-! ### The message of the sample handshake, at either end -/

namespace Sample

def packet : DataPayload := ⟨linkID, nonce, sealed⟩

def arriving : List (Action Party) := handshake ++ [.deliverData .two packet, .resume 2]

def reflecting : List (Action Party) := handshake ++ [.deliverData .one packet, .resume 2]

theorem secret_of_sharedAEAD {a p k : Bytes} {id : LinkID} (h : sharedAEAD crypto a p id = some k) :
    ∃ secret, deriveAEAD crypto secret id = k ∧
      (secret = secretTwo ∧ (a = ephOne ∧ p = pubTwo ∨ a = ephTwo ∧ p = pubOne) ∨
        secret = secretThree ∧ (a = ephOne ∧ p = pubThree ∨ a = ephThree ∧ p = pubOne)) := by
  obtain ⟨secret, hsecret, hk⟩ := map_eq_some_iff.mp h
  refine ⟨secret, hk, ?_⟩
  obtain ⟨q, hq, hecdh⟩ := bind_eq_some_iff.mp hsecret
  obtain rfl : p = q := by
    rw [newPublicKey] at hq
    split at hq
    · exact Option.some.inj hq
    · cases hq
  simp only [crypto] at hecdh
  split at hecdh
  · next hap => exact .inl ⟨(Option.some.inj hecdh).symm, hap⟩
  · split at hecdh
    · next hap => exact .inr ⟨(Option.some.inj hecdh).symm, hap⟩
    · cases hecdh

theorem deriveAEAD_other {secret : Bytes} {id : LinkID} (h : id ≠ linkID) :
    deriveAEAD crypto secret id = id.val ++ secret := by
  have hval : id.val ≠ linkID.val := fun heq => h (Subtype.ext heq)
  simp [deriveAEAD, crypto, hval]

theorem deriveAEAD_inj {s s' : Bytes} {id id' : LinkID} (hs : s = secretTwo ∨ s = secretThree)
    (hs' : s' = secretTwo ∨ s' = secretThree) (h : deriveAEAD crypto s id = deriveAEAD crypto s' id') :
    id = id' ∧ s = s' := by
  by_cases hid : id = linkID <;> by_cases hid' : id' = linkID
  · subst hid hid'
    refine ⟨rfl, ?_⟩
    rcases hs with rfl | rfl <;> rcases hs' with rfl | rfl <;> first | rfl | exact absurd h (by decide)
  · rw [deriveAEAD_other hid'] at h
    refine absurd (congrArg List.length h) ?_
    rw [hid, length_append, id'.length_val]
    rcases hs with rfl | rfl <;> rcases hs' with rfl | rfl <;> decide
  · rw [deriveAEAD_other hid] at h
    refine absurd (congrArg List.length h) ?_
    rw [hid', length_append, id.length_val]
    rcases hs with rfl | rfl <;> rcases hs' with rfl | rfl <;> decide
  · rw [deriveAEAD_other hid, deriveAEAD_other hid'] at h
    obtain ⟨hval, hsec⟩ := append_inj h (id.length_val.trans id'.length_val.symm)
    exact ⟨Subtype.ext hval, hsec⟩

theorem sharedAEAD_inj {a b p q k : Bytes} {id id' : LinkID} (hp : sharedAEAD crypto a p id = some k)
    (hq : sharedAEAD crypto b q id' = some k) :
    id = id' ∧ (crypto.publicKey a = crypto.publicKey b ∧ p = q ∨ p = crypto.publicKey b ∧ q = crypto.publicKey a) := by
  obtain ⟨s, hs, hkeys⟩ := secret_of_sharedAEAD hp
  obtain ⟨s', hs', hkeys'⟩ := secret_of_sharedAEAD hq
  obtain ⟨hid, rfl⟩ := deriveAEAD_inj (hkeys.imp And.left And.left) (hkeys'.imp And.left And.left) (hs.trans hs'.symm)
  refine ⟨hid, ?_⟩
  have hne : secretTwo ≠ secretThree := by decide
  rcases hkeys with ⟨rfl, ⟨rfl, rfl⟩ | ⟨rfl, rfl⟩⟩ | ⟨rfl, ⟨rfl, rfl⟩ | ⟨rfl, rfl⟩⟩ <;>
    rcases hkeys' with ⟨heq, ⟨rfl, rfl⟩ | ⟨rfl, rfl⟩⟩ | ⟨heq, ⟨rfl, rfl⟩ | ⟨rfl, rfl⟩⟩ <;>
      first | exact .inl ⟨rfl, rfl⟩ | exact .inr ⟨rfl, rfl⟩ | exact absurd heq hne | exact absurd heq.symm hne

theorem crypto_separates (K : Bytes → Prop) : crypto.Separates K := by
  intro a b c d id id' k _ _ _ _ hab hcd
  obtain ⟨hid, hpub | hpub⟩ := sharedAEAD_inj hab hcd
  · exact ⟨hid, .inl hpub⟩
  · exact ⟨hid, .inr ⟨hpub.2.symm, hpub.1⟩⟩

end Sample

namespace World

theorem data_from_other_end_arriving :
    ∃ w, exec (step Sample.crypto) (World.new Sample.self) Sample.arriving = some w ∧
      w.handed = [⟨0, 5, Sample.message⟩] ∧
      ∃ y ∈ w.sends, y.data = Sample.message ∧
        ∃ s t, w.sessions[y.link]? = some s ∧ w.sessions[0]? = some t ∧ Ends s t := by
  have hrun : exec (step Sample.crypto) (World.new Sample.self) Sample.arriving = some _ := rfl
  exact ⟨_, hrun, rfl, data_from_other_end (Sample.crypto_separates _) Sample.crypto_lawful hrun
    (by decide) (by decide) _
    mem_cons_self⟩

/-- A packet that comes back to its sender is handed to the sender's own callback. --/
theorem reflected_to_sender :
    ∃ w, exec (step Sample.crypto) (World.new Sample.self) Sample.reflecting = some w ∧
      Along (step Sample.crypto) (fun w a => w.Honest a ∧ w.FreshKey Sample.crypto a ∧ w.Unforged Sample.crypto a)
        (World.new Sample.self) Sample.reflecting ∧
      w.handed = [⟨1, 6, Sample.message⟩] ∧ ∀ y ∈ w.sends, y.link = 1 := by
  have hrun : exec (step Sample.crypto) (World.new Sample.self) Sample.reflecting = some _ := rfl
  exact ⟨_, hrun, by decide, rfl, by decide⟩

end World
end SyncSwarm.Link
