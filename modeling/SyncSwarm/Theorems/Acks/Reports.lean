import SyncSwarm.Theorems.Acks.Moves

/-! Every authentic acknowledgement is reported once, to the sender that waits or to `onDelivered`, unless it comes
    between the end of the wait and the mark on the registration. -/

namespace SyncSwarm.Transfer
open Lib Protocol List Option GoMap

def SendPhase.last : SendPhase → Bool
  | .waiting attempt => !(attempt + 1 < maxAckAttempts)
  | _ => false

def SendPhase.deaf : SendPhase → Bool
  | .givingUp => true
  | .leaving .canceled => true
  | .unregistering .canceled => true
  | _ => false

def SendPhase.early : SendPhase → Bool
  | .waiting _ => true
  | phase => phase.deaf

def SendPhase.gaveUp : SendPhase → Bool
  | .leaving .notConfirmed => true
  | .unregistering .notConfirmed => true
  | .returned .notConfirmed => true
  | _ => false

/-- The call has seen its acknowledgement. --/
def SendPhase.confirmed : SendPhase → Bool
  | .leaving .confirmed => true
  | .unregistering .confirmed => true
  | .returned .confirmed => true
  | _ => false

namespace Confirmations
variable {onDelivered : Bool} {iter : GoMap.Iteration TransferID PendingAck} {w u : Confirmations} {a : Action}
  {i : TransferID} {c : Nat}
  {x x' : SendCall}

/-- No acknowledgement of the transfer comes while its sender is deaf, and the sender does not take its last timeout, or
    a cancellation, when one has come already. --/
def Heard (i : TransferID) (w : Confirmations) : Action → Prop
  | .timeout c => ∀ x ∈ w.calls[c]?, x.id = i → x.phase.last = true → (w.pending.get? i).isSome
  | .cancel c => ∀ x ∈ w.calls[c]?, x.id = i → (w.pending.get? i).isSome
  | .arrive j _ => j = i → ∀ x ∈ w.calls, x.id = i → x.phase.deaf = false
  | _ => True

instance (i : TransferID) (w : Confirmations) : ∀ a, Decidable (Heard i w a)
  | .timeout c => inferInstanceAs (Decidable (∀ x ∈ w.calls[c]?, _ → _ → _))
  | .cancel c => inferInstanceAs (Decidable (∀ x ∈ w.calls[c]?, _ → _))
  | .arrive _ _ => inferInstanceAs (Decidable (_ → ∀ x ∈ w.calls, _ → _))
  | .register _ _ _ _ | .confirmed _ | .retain _ | .check _ | .unregister _ | .report _ | .tick _ =>
    inferInstanceAs (Decidable True)

/-! ### Whose channel it is -/

def idAt (w : Confirmations) (c : Nat) : Option TransferID := w.calls[c]?.map (·.id)

theorem calls_setPhase {c' : Nat} {y : SendCall} {phase : SendPhase} (hy : w.calls[c']? = some y)
    (hx : (w.setPhase c' y phase).calls[c]? = some x) :
    c' = c ∧ w.calls[c]? = some y ∧ x = { y with phase } ∨ c' ≠ c ∧ w.calls[c]? = some x := by
  simp only [setPhase, getElem?_set'] at hx
  by_cases hc : c' = c
  · subst hc
    rw [if_pos rfl, hy] at hx
    exact .inl ⟨rfl, hy, (Option.some.inj hx).symm⟩
  · rw [if_neg hc] at hx
    exact .inr ⟨hc, hx⟩

theorem idAt_setPhase {c' : Nat} {y : SendCall} (phase : SendPhase) (hy : w.calls[c']? = some y) (c : Nat) :
    (w.setPhase c' y phase).idAt c = w.idAt c := by
  simp only [idAt, setPhase, getElem?_set']
  by_cases hc : c' = c
  · subst hc
    simp [hy]
  · simp [hc]

theorem Steps.idAt (h : Steps onDelivered iter w a u) (hc : w.idAt c = some i) : u.idAt c = some i := by
  cases h with
  | registered =>
    obtain ⟨x, hx, rfl⟩ := map_eq_some_iff.mp hc
    have hlt := lt_of_getElem? hx
    simp [Confirmations.idAt, getElem?_append_left hlt, hx]
  | confirmed hx | timedOut hx | canceled hx | retained hx | checked hx | unregistered hx =>
    exact (idAt_setPhase _ hx c).trans hc
  | reported =>
    rw [Confirmations.idAt, report_calls]
    exact hc
  | _ => exact hc

theorem Steps.pending {pa : PendingAck} (h : Steps onDelivered iter w a u) (hget : u.pending.get? i = some pa) :
    (∃ pa', w.pending.get? i = some pa' ∧ pa.Renews pa') ∨
      u.idAt pa.ch = some i ∧ ∃ destNode, a = .register i destNode pa.destKey pa.token := by
  have hdelete : ∀ {j : TransferID}, (GoMap.delete w.pending j).get? i = some pa → w.pending.get? i = some pa := by
    intro j hj
    by_cases hij : i = j
    · rw [hij, get?_delete_self] at hj
      cases hj
    · rwa [get?_delete_ne _ hij] at hj
  cases h with
  | registered =>
    rw [PendingAcks.register, get?_set] at hget
    split at hget
    next hi =>
      obtain rfl := Option.some.inj hget
      subst hi
      exact .inr ⟨by simp [Confirmations.idAt], _, rfl⟩
    · exact .inl ⟨pa, hget, .refl pa⟩
  | @retained c y =>
    by_cases hi : i = y.id
    · subst hi
      cases hpa : w.pending.get? y.id with
      | none =>
        rw [PendingAcks.retainForLateAck, hpa] at hget
        rw [hget] at hpa
        cases hpa
      | some pa' =>
        refine .inl ⟨pa', rfl, ?_⟩
        rcases PendingAcks.get?_retain_self hpa with ⟨pa'', hpa'', hrenews, -⟩ | hnone
        · obtain rfl := mem_unique hpa'' hget
          exact hrenews
        · rw [hnone] at hget
          cases hget
    · rcases PendingAcks.get?_retain_other hi with h | ⟨h, -⟩
      · exact .inl ⟨pa, h.symm.trans hget, .refl pa⟩
      · rw [h] at hget
        cases hget
  | unregistered | accepted => exact .inl ⟨pa, hdelete hget, .refl pa⟩
  | reported => exact .inl ⟨pa, report_pending ▸ hget, .refl pa⟩
  | _ => exact .inl ⟨pa, hget, .refl pa⟩

/-- Registrations and resolutions belong to the calls. --/
structure Owned (w : Confirmations) : Prop where
  pending : ∀ {j pa}, w.pending.get? j = some pa → w.idAt pa.ch = some j
  resolution : ∀ r ∈ w.resolutions, w.idAt r.ack.ch = some r.id
  closed : ∀ k ∈ w.closed, (w.idAt k).isSome
  delivered : ∀ e ∈ w.delivered, ∃ r ∈ w.resolutions, r.id = e.1

theorem owned_new : new.Owned := by
  refine ⟨fun h => ?_, ?_, ?_, ?_⟩
  · rw [show new.pending = ∅ from rfl, get?_empty] at h
    cases h
  all_goals exact fun x hx => absurd hx not_mem_nil

theorem Steps.resolution {r : Resolution} (h : Steps onDelivered iter w a u) (hr : r ∈ u.resolutions) :
    (∃ r' ∈ w.resolutions, r'.id = r.id ∧ r'.ack = r.ack) ∨
      w.pending.get? r.id = some r.ack ∧ ∃ proof, a = .arrive r.id proof ∧ r.ack.accepts proof = true := by
  cases h with
  | accepted hget hacc =>
    rcases mem_append_single.mp hr with hr | rfl
    · exact .inl ⟨r, hr, rfl, rfl⟩
    · exact .inr ⟨hget, _, rfl, hacc⟩
  | reported hx =>
    rw [report_resolutions] at hr
    rcases mem_or_eq_of_mem_set hr with hr | rfl
    · exact .inl ⟨r, hr, rfl, rfl⟩
    · exact .inl ⟨_, mem_of_getElem? hx, rfl, rfl⟩
  | _ => exact .inl ⟨r, hr, rfl, rfl⟩

theorem Steps.resolution_stays {r : Resolution} (h : Steps onDelivered iter w a u) (hr : r ∈ w.resolutions) :
    ∃ r' ∈ u.resolutions, r'.id = r.id ∧ r'.ack = r.ack := by
  cases h with
  | accepted => exact ⟨r, mem_append_left _ hr, rfl, rfl⟩
  | @reported k x hx =>
    rw [report_resolutions]
    obtain ⟨j, hj⟩ := mem_iff_getElem?.mp hr
    by_cases hjk : k = j
    · subst hjk
      obtain rfl := mem_unique hx hj
      exact ⟨{ x with reported := true }, mem_of_getElem? (by rw [getElem?_set', if_pos rfl, hx]; rfl), rfl, rfl⟩
    · exact ⟨r, mem_of_getElem? (by rw [getElem?_set', if_neg hjk, hj]), rfl, rfl⟩
  | _ => exact ⟨r, hr, rfl, rfl⟩

theorem Steps.owned (hs : Steps onDelivered iter w a u) (h : w.Owned) : u.Owned where
  pending hget := by
    rcases hs.pending hget with ⟨pa', hget', hrenews⟩ | ⟨hid, -⟩
    · exact hs.idAt (hrenews.ch ▸ h.pending hget')
    · exact hid
  resolution r hr := by
    rcases hs.resolution hr with ⟨r', hr', hid, hack⟩ | ⟨hget, -⟩
    · exact hs.idAt (hack ▸ hid ▸ h.resolution r' hr')
    · exact hs.idAt (h.pending hget)
  closed k hk := by
    have hold : k ∈ w.closed → (u.idAt k).isSome := by
      intro hk
      obtain ⟨j, hj⟩ := isSome_iff_exists.mp (h.closed k hk)
      rw [hs.idAt hj]
      rfl
    cases hs with
    | @reported r x hx =>
      rcases mem_report_closed hk with hk | rfl
      · exact hold hk
      · have hid := h.resolution x (mem_of_getElem? hx)
        rw [Confirmations.idAt, report_calls]
        exact isSome_iff_exists.mpr ⟨_, hid⟩
    | _ => exact hold hk
  delivered e he := by
    have hold : e ∈ w.delivered → ∃ r ∈ u.resolutions, r.id = e.1 := by
      intro he
      obtain ⟨r, hr, hid⟩ := h.delivered e he
      obtain ⟨r', hr', hid', -⟩ := hs.resolution_stays hr
      exact ⟨r', hr', hid'.trans hid⟩
    cases hs with
    | @reported r x hx hrep =>
      rcases mem_report_delivered he with he | heq
      · exact hold he
      · have hstep : Steps onDelivered iter w (.report r) _ := .reported hx hrep
        obtain ⟨r', hr', hid, -⟩ := hstep.resolution_stays (mem_of_getElem? hx)
        exact ⟨r', hr', hid.trans heq.symm⟩
    | _ => exact hold he

/-! ### The way of a registration -/

def Unresolved (w : Confirmations) (i : TransferID) : Prop := ∀ r ∈ w.resolutions, r.id ≠ i

structure ResolvedBy (resolutions : List Resolution) (i : TransferID) (r : Resolution) : Prop where
  id : r.id = i
  only : ∃ k, resolutions[k]? = some r ∧ ∀ (k' : Nat) (r' : Resolution), resolutions[k']? = some r' → r'.id = i → k' = k

def deliveries (w : Confirmations) (i : TransferID) : Nat := w.delivered.countP fun e => e.1 = i

/-- Where a call and its registration stand. --/
inductive Fate (w : Confirmations) (c : Nat) (x : SendCall) : Prop where
  | registered {pa} : w.pending.get? x.id = some pa → pa.ch = c → pa.late = false → w.Unresolved x.id → c ∉ w.closed →
    w.deliveries x.id = 0 → x.phase.early = true → Fate w c x
  | resolved {r} : w.pending.get? x.id = none → ResolvedBy w.resolutions x.id r → r.ack.ch = c → r.ack.late = false →
    (r.reported = true ↔ c ∈ w.closed) → w.deliveries x.id = 0 →
    (∃ n, x.phase = .waiting n) ∨ r.reported = true ∧ x.phase.confirmed = true → Fate w c x
  | retained {pa} : w.pending.get? x.id = some pa → pa.late = true → w.Unresolved x.id → w.deliveries x.id = 0 →
    x.phase = .leaving .notConfirmed ∨ x.phase = .returned .notConfirmed → Fate w c x
  | gone : w.pending.get? x.id = none → w.Unresolved x.id → w.deliveries x.id = 0 →
    x.phase.gaveUp = true ∨ x.phase = .returned .canceled → Fate w c x
  | late {r} : w.pending.get? x.id = none → ResolvedBy w.resolutions x.id r → r.ack.late = true →
    w.deliveries x.id = r.reported.toNat → x.phase.gaveUp = true → Fate w c x

structure Agree (w u : Confirmations) (c : Nat) (i : TransferID) : Prop where
  resolution : ∀ (k : Nat) (r : Resolution), r.id = i → (u.resolutions[k]? = some r ↔ w.resolutions[k]? = some r)
  closed : c ∈ u.closed ↔ c ∈ w.closed
  deliveries : u.deliveries i = w.deliveries i

theorem Agree.of_eq (hr : u.resolutions = w.resolutions) (hc : u.closed = w.closed) (hd : u.delivered = w.delivered) :
    Agree w u c i :=
  ⟨fun k r _ => by rw [hr], by rw [hc], by rw [Confirmations.deliveries, hd]; rfl⟩

theorem Agree.unresolved (h : Agree w u c i) (hw : w.Unresolved i) : u.Unresolved i := by
  intro r hr hid
  obtain ⟨k, hk⟩ := mem_iff_getElem?.mp hr
  exact hw r (mem_of_getElem? ((h.resolution k r hid).mp hk)) hid

theorem Agree.resolvedBy {r : Resolution} (h : Agree w u c i) (hw : ResolvedBy w.resolutions i r) :
    ResolvedBy u.resolutions i r := by
  obtain ⟨hid, k, hk, honly⟩ := hw
  exact ⟨hid, k, (h.resolution k r hid).mpr hk, fun k' r' hk' hid' =>
    honly k' r' ((h.resolution k' r' hid').mp hk') hid'⟩

theorem Fate.agree (h : Fate w c x) (ha : Agree w u c x.id) (hp : u.pending.get? x.id = w.pending.get? x.id) :
    Fate u c x := by
  cases h with
  | registered hget hch hearly hnone hopen hquiet hphase =>
    exact .registered (hp.trans hget) hch hearly (ha.unresolved hnone) (fun hc => hopen (ha.closed.mp hc))
      (ha.deliveries.trans hquiet) hphase
  | resolved hget hone hch hearly hclosed hquiet hphase =>
    exact .resolved (hp.trans hget) (ha.resolvedBy hone) hch hearly (hclosed.trans ha.closed.symm)
      (ha.deliveries.trans hquiet) hphase
  | retained hget hlate hnone hquiet hphase =>
    exact .retained (hp.trans hget) hlate (ha.unresolved hnone) (ha.deliveries.trans hquiet) hphase
  | gone hget hnone hquiet hphase =>
    exact .gone (hp.trans hget) (ha.unresolved hnone) (ha.deliveries.trans hquiet) hphase
  | late hget hone hlate hcount hphase =>
    exact .late (hp.trans hget) (ha.resolvedBy hone) hlate (ha.deliveries.trans hcount) hphase

theorem Fate.dropped (h : Fate w c x) (ha : Agree w u c x.id)
    (hp : u.pending.get? x.id = w.pending.get? x.id ∨ u.pending.get? x.id = none ∧ (w.pending.get? x.id).any (·.late)) :
    Fate u c x := by
  rcases hp with hp | ⟨hnone, hlate⟩
  · exact h.agree ha hp
  · cases h with
    | registered hget _ hearly => simp [hget, hearly] at hlate
    | retained hget _ hun hquiet hphase =>
      refine .gone hnone (ha.unresolved hun) (ha.deliveries.trans hquiet) (.inl ?_)
      rcases hphase with hp | hp
      · rw [hp]; rfl
      · rw [hp]; rfl
    | resolved hget | gone hget | late hget => simp [hget] at hlate

/-! ### Its own steps -/

section own
variable {n : Nat} {result : SendResult}

theorem Fate.confirm (h : Fate w c x) (hp : x.phase = .waiting n) (hc : c ∈ w.closed) :
    Fate (w.setPhase c x (.leaving .confirmed)) c { x with phase := .leaving .confirmed } := by
  cases h with
  | registered _ _ _ _ hopen => exact absurd hc hopen
  | resolved hget hone hch hearly hclosed hquiet =>
    exact .resolved hget hone hch hearly hclosed hquiet (.inr ⟨hclosed.mpr hc, rfl⟩)
  | retained _ _ _ _ hphase => simp [hp] at hphase
  | gone _ _ _ hphase | late _ _ _ _ hphase => simp [hp, SendPhase.gaveUp] at hphase

theorem Fate.timeOut (h : Fate w c x) (hp : x.phase = .waiting n)
    (hheard : x.phase.last = true → (w.pending.get? x.id).isSome) :
    Fate (w.setPhase c x (afterTimeout n)) c { x with phase := afterTimeout n } := by
  cases h with
  | registered hget hch hearly hnone hopen hquiet =>
    refine .registered hget hch hearly hnone hopen hquiet ?_
    show (afterTimeout n).early = true
    rw [afterTimeout]
    split <;> rfl
  | resolved hget hone hch hearly hclosed hquiet =>
    refine .resolved hget hone hch hearly hclosed hquiet (.inl ?_)
    show ∃ m, afterTimeout n = .waiting m
    rw [afterTimeout]
    split
    · exact ⟨n + 1, rfl⟩
    next hlast =>
      -- The last timeout: the registration would still be there.
      have := hheard (by rw [hp]; simp [SendPhase.last, hlast])
      simp [hget] at this
  | retained _ _ _ _ hphase => simp [hp] at hphase
  | gone _ _ _ hphase | late _ _ _ _ hphase => simp [hp, SendPhase.gaveUp] at hphase

theorem Fate.cancel (h : Fate w c x) (hp : x.phase = .waiting n) (hheard : (w.pending.get? x.id).isSome) :
    Fate (w.setPhase c x (.leaving .canceled)) c { x with phase := .leaving .canceled } := by
  cases h with
  | registered hget hch hearly hnone hopen hquiet => exact .registered hget hch hearly hnone hopen hquiet rfl
  | resolved hget => simp [hget] at hheard
  | retained _ _ _ _ hphase => simp [hp] at hphase
  | gone _ _ _ hphase | late _ _ _ _ hphase => simp [hp, SendPhase.gaveUp] at hphase

theorem Fate.retain (h : Fate w c x) (hp : x.phase = .givingUp) :
    Fate { w.setPhase c x (.leaving .notConfirmed) with
        pending := w.pending.retainForLateAck iter x.id x.destNode w.now w.now } c
      { x with phase := .leaving .notConfirmed } := by
  cases h with
  | registered hget _ _ hnone _ hquiet =>
    rcases PendingAcks.get?_retain_self hget with ⟨pa', hget', -, hlate⟩ | hdropped
    · exact .retained hget' hlate hnone hquiet (.inl rfl)
    · exact .gone hdropped hnone hquiet (.inl rfl)
  | resolved _ _ _ _ _ _ hphase => simp [hp, SendPhase.confirmed] at hphase
  | retained _ _ _ _ hphase => simp [hp] at hphase
  | gone _ _ _ hphase | late _ _ _ _ hphase => simp [hp, SendPhase.gaveUp] at hphase

theorem Fate.check (h : Fate w c x) (hp : x.phase = .leaving result) :
    Fate (w.setPhase c x (w.deferred x result)) c { x with phase := w.deferred x result } := by
  cases h with
  | registered hget hch hearly hnone hopen hquiet hphase =>
    obtain rfl : result = .canceled := by cases result <;> simp [hp, SendPhase.early, SendPhase.deaf] at hphase ⊢
    refine .registered hget hch hearly hnone hopen hquiet ?_
    simp [deferred, hget, hearly, SendPhase.early, SendPhase.deaf]
  | resolved hget hone hch hearly hclosed hquiet hphase =>
    obtain ⟨hrep, hconf⟩ := hphase.resolve_left (by simp [hp])
    obtain rfl : result = .confirmed := by cases result <;> simp [hp, SendPhase.confirmed] at hconf ⊢
    refine .resolved hget hone hch hearly hclosed hquiet (.inr ⟨hrep, ?_⟩)
    simp [deferred, hget, SendPhase.confirmed]
  | retained hget hlate hnone hquiet hphase =>
    obtain rfl : result = .notConfirmed := by simpa [hp] using hphase
    refine .retained hget hlate hnone hquiet (.inr ?_)
    simp [deferred, hget, hlate]
  | gone hget hnone hquiet hphase =>
    obtain rfl : result = .notConfirmed := by cases result <;> simp [hp, SendPhase.gaveUp] at hphase ⊢
    refine .gone hget hnone hquiet (.inl ?_)
    simp [deferred, hget, SendPhase.gaveUp]
  | late hget hone hlate hcount hphase =>
    obtain rfl : result = .notConfirmed := by cases result <;> simp [hp, SendPhase.gaveUp] at hphase ⊢
    refine .late hget hone hlate hcount ?_
    simp [deferred, hget, SendPhase.gaveUp]

theorem Fate.unregister (h : Fate w c x) (hp : x.phase = .unregistering result) :
    Fate { w.setPhase c x (.returned result) with pending := GoMap.delete w.pending x.id } c
      { x with phase := .returned result } := by
  have hnone : (GoMap.delete w.pending x.id).get? x.id = none := get?_delete_self _ _
  cases h with
  | registered _ _ _ hun _ hquiet hphase =>
    obtain rfl : result = .canceled := by cases result <;> simp [hp, SendPhase.early, SendPhase.deaf] at hphase ⊢
    exact .gone hnone hun hquiet (.inr rfl)
  | resolved _ hone hch hearly hclosed hquiet hphase =>
    obtain ⟨hrep, hconf⟩ := hphase.resolve_left (by simp [hp])
    obtain rfl : result = .confirmed := by cases result <;> simp [hp, SendPhase.confirmed] at hconf ⊢
    exact .resolved hnone hone hch hearly hclosed hquiet (.inr ⟨hrep, rfl⟩)
  | retained _ _ _ _ hphase => simp [hp] at hphase
  | gone _ hun hquiet hphase =>
    obtain rfl : result = .notConfirmed := by cases result <;> simp [hp, SendPhase.gaveUp] at hphase ⊢
    exact .gone hnone hun hquiet (.inl rfl)
  | late _ hone hlate hcount hphase =>
    obtain rfl : result = .notConfirmed := by cases result <;> simp [hp, SendPhase.gaveUp] at hphase ⊢
    exact .late hnone hone hlate hcount rfl

end own

/-! ### Acknowledgements -/

theorem Unresolved.resolvedBy {r : Resolution} (h : w.Unresolved i) (hid : r.id = i) :
    ResolvedBy (w.resolutions ++ [r]) i r := by
  refine ⟨hid, w.resolutions.length, by simp, fun k' r' hk' hid' => ?_⟩
  by_cases hlt : k' < w.resolutions.length
  · rw [getElem?_append_left hlt] at hk'
    exact absurd hid' (h r' (mem_of_getElem? hk'))
  · have hbound := lt_of_getElem? hk'
    rw [length_append, length_singleton] at hbound
    omega

theorem Fate.accept {pa : PendingAck} (h : Fate w c x) (hget : w.pending.get? x.id = some pa)
    (hheard : x.phase.deaf = false) : Fate { w with
      pending := GoMap.delete w.pending x.id, resolutions := w.resolutions ++ [⟨x.id, pa, false⟩] } c x := by
  have hnone : (GoMap.delete w.pending x.id).get? x.id = none := get?_delete_self _ _
  cases h with
  | @registered pa' hget' hch hearly hun hopen hquiet hphase =>
    obtain rfl := mem_unique hget hget'
    have hwaiting : ∃ n, x.phase = .waiting n := by
      cases hp : x.phase with
      | waiting n => exact ⟨n, rfl⟩
      | _ => simp [hp, SendPhase.early] at hphase; simp [hp, hphase] at hheard
    exact .resolved hnone (hun.resolvedBy rfl) hch hearly (by simpa using hopen) hquiet (.inl hwaiting)
  | @retained pa' hget' hlate hun hquiet hphase =>
    obtain rfl := mem_unique hget hget'
    refine .late hnone (hun.resolvedBy rfl) hlate hquiet ?_
    rcases hphase with hp | hp
    · rw [hp]; rfl
    · rw [hp]; rfl
  | resolved hget' | gone hget' | late hget' => rw [hget] at hget'; cases hget'

theorem ResolvedBy.report {r : Nat} {y y' : Resolution} (h : ResolvedBy w.resolutions i y)
    (hy' : w.resolutions[r]? = some y') (hid : y'.id = i) :
    y' = y ∧ ResolvedBy (report true w r y').resolutions i { y with reported := true } := by
  obtain ⟨hid', k, hk, honly⟩ := h
  obtain rfl := honly r y' hy' hid
  obtain rfl := mem_unique hy' hk
  refine ⟨rfl, hid', r, ?_, fun k' r' hk' hr' => ?_⟩
  · rw [report_resolutions, getElem?_set', if_pos rfl, hk]
    rfl
  · rw [report_resolutions, getElem?_set'] at hk'
    split at hk'
    · next heq => exact heq.symm
    · exact honly k' r' hk' hr'

theorem Fate.report {r : Nat} {y : Resolution} (h : Fate w c x) (hy : w.resolutions[r]? = some y)
    (hrep : y.reported = false) (hid : y.id = x.id) : Fate (report true w r y) c x := by
  have hpending : (Confirmations.report true w r y).pending.get? x.id = w.pending.get? x.id := by rw [report_pending]
  have hmem := mem_of_getElem? hy
  cases h with
  | registered _ _ _ hun | retained _ _ hun | gone _ hun => exact absurd hid (hun y hmem)
  | resolved hget hone hch hearly _ hquiet hphase =>
    obtain ⟨rfl, hone'⟩ := hone.report hy hid
    obtain ⟨hclosed, hdelivered⟩ : (Confirmations.report true w r y).closed = y.ack.ch :: w.closed ∧ _ :=
      report_early hearly
    refine .resolved (hpending.trans hget) hone' hch hearly ?_ ?_ (hphase.imp_right fun h => ⟨rfl, h.2⟩)
    · simp [hclosed, hch]
    · rw [deliveries, hdelivered]
      exact hquiet
  | late hget hone hlate hcount hphase =>
    obtain ⟨rfl, hone'⟩ := hone.report hy hid
    refine .late (hpending.trans hget) hone' hlate ?_ hphase
    rw [deliveries, (report_late hlate).2, countP_append]
    rw [hrep] at hcount
    simp [hid, show w.delivered.countP (fun e => decide (e.1 = x.id)) = 0 from hcount]

/-! ### Whole runs -/

def Alone (w : Confirmations) (c : Nat) (i : TransferID) : Prop := ∀ c', w.idAt c' = some i → c' = c

theorem Steps.alone (h : Steps true iter w a u) (hu : u.Alone c i) : w.Alone c i := fun c' hc' => hu c' (h.idAt hc')

theorem Alone.ne {c' : Nat} {y : SendCall} (h : w.Alone c i) (hy : w.calls[c']? = some y) (hc : c' ≠ c) : i ≠ y.id :=
  fun hi => hc (h c' (by rw [idAt, hy, hi]; rfl))

theorem Steps.fate (hs : Steps true iter w a u) (hheard : Heard i w a) (howned : w.Owned)
    (hw : ∀ c x, w.calls[c]? = some x → x.id = i → w.Alone c i → Fate w c x) (hx : u.calls[c]? = some x)
    (hid : x.id = i) (hu : u.Alone c i) : Fate u c x := by
  have halone := hs.alone hu
  subst hid
  cases hs with
  | @registered j destNode destKey token =>
    have hnew : (w.calls ++ [⟨j, destNode, .waiting 0⟩] : List SendCall)[w.calls.length]? =
        some ⟨j, destNode, .waiting 0⟩ := by simp
    by_cases hlt : c < w.calls.length
    · have hold : w.calls[c]? = some x := by rw [← hx]; exact (getElem?_append_left hlt).symm
      have hj : x.id ≠ j := by
        rintro rfl
        have := hu w.calls.length (congrArg (Option.map SendCall.id) hnew)
        omega
      exact (hw c x hold rfl halone).agree (.of_eq rfl rfl rfl) (get?_set_ne _ _ hj)
    · obtain rfl : c = w.calls.length := by
        have hbound : c < w.calls.length + 1 := by simpa using (lt_of_getElem? hx)
        omega
      obtain rfl := mem_unique hx hnew
      have hfirst : w.idAt w.calls.length = none := by simp [Confirmations.idAt]
      -- The transfer is new: nothing refers to it yet.
      have hun : w.Unresolved j := by
        intro r hr hrj
        have hch := howned.resolution r hr
        rw [hrj] at hch
        rw [halone _ hch, hfirst] at hch
        cases hch
      refine .registered (get?_set_self _ _ _) rfl rfl hun (fun hc => ?_) (countP_eq_zero.mpr fun e he => ?_) rfl
      · have := howned.closed _ hc
        rw [hfirst] at this
        cases this
      · obtain ⟨r, hr, hre⟩ := howned.delivered e he
        simpa [hre] using hun r hr
  | confirmed hy hp hc =>
    obtain ⟨rfl, hold, rfl⟩ | ⟨-, hold⟩ := calls_setPhase hy hx
    · exact (hw _ _ hold rfl halone).confirm hp hc
    · exact (hw c x hold rfl halone).agree (.of_eq rfl rfl rfl) rfl
  | timedOut hy hp =>
    obtain ⟨rfl, hold, rfl⟩ | ⟨-, hold⟩ := calls_setPhase hy hx
    · exact (hw _ _ hold rfl halone).timeOut hp fun hlast => hheard _ hy rfl hlast
    · exact (hw c x hold rfl halone).agree (.of_eq rfl rfl rfl) rfl
  | canceled hy hp =>
    obtain ⟨rfl, hold, rfl⟩ | ⟨-, hold⟩ := calls_setPhase hy hx
    · exact (hw _ _ hold rfl halone).cancel hp (hheard _ hy rfl)
    · exact (hw c x hold rfl halone).agree (.of_eq rfl rfl rfl) rfl
  | retained hy hp =>
    obtain ⟨rfl, hold, rfl⟩ | ⟨hc, hold⟩ := calls_setPhase hy hx
    · exact (hw _ _ hold rfl halone).retain hp
    · exact (hw c x hold rfl halone).dropped (.of_eq rfl rfl rfl) (PendingAcks.get?_retain_other (halone.ne hy hc))
  | checked hy hp =>
    obtain ⟨rfl, hold, rfl⟩ | ⟨-, hold⟩ := calls_setPhase hy hx
    · exact (hw _ _ hold rfl halone).check hp
    · exact (hw c x hold rfl halone).agree (.of_eq rfl rfl rfl) rfl
  | unregistered hy hp =>
    obtain ⟨rfl, hold, rfl⟩ | ⟨hc, hold⟩ := calls_setPhase hy hx
    · exact (hw _ _ hold rfl halone).unregister hp
    · exact (hw c x hold rfl halone).agree (.of_eq rfl rfl rfl) (get?_delete_ne _ (halone.ne hy hc))
  | @accepted j proof pa hget =>
    have hfate := hw c x hx rfl halone
    by_cases hj : j = x.id
    · subst hj
      exact hfate.accept hget (hheard rfl x (mem_of_getElem? hx) rfl)
    · refine hfate.agree ⟨fun k r hr => ?_, Iff.rfl, rfl⟩ (get?_delete_ne _ (Ne.symm hj))
      by_cases hk : k < w.resolutions.length
      · rw [getElem?_append_left hk]
      · rw [getElem?_append_right (Nat.not_lt.mp hk), getElem?_eq_none (Nat.not_lt.mp hk)]
        refine ⟨fun h => ?_, fun h => by cases h⟩
        obtain rfl := mem_singleton.mp (mem_of_getElem? h)
        exact absurd hr hj
  | @reported k y hy hrep =>
    rw [report_calls] at hx
    have hfate := hw c x hx rfl halone
    by_cases hid : y.id = x.id
    · exact hfate.report hy hrep hid
    · refine hfate.agree ⟨fun k' r hr => ?_, ?_, ?_⟩ (by rw [report_pending])
      · rw [report_resolutions, getElem?_set']
        split
        next hk =>
          subst hk
          rw [hy]
          constructor
          · intro h
            obtain rfl := Option.some.inj h
            exact absurd hr hid
          · intro h
            obtain rfl := Option.some.inj h
            exact absurd hr hid
        · rfl
      · cases hlate : y.ack.late with
        | true => rw [(report_late hlate).1]
        | false =>
          have hother : c ≠ y.ack.ch := by
            intro hc
            have hch := howned.resolution y (mem_of_getElem? hy)
            rw [← hc, Confirmations.idAt, hx] at hch
            exact hid (Option.some.inj hch).symm
          rw [(report_early hlate).1, mem_cons, or_iff_right hother]
      · cases hlate : y.ack.late with
        | true =>
          rw [deliveries, (report_late hlate).2, countP_append]
          simp [deliveries, hid]
        | false => rw [deliveries, (report_early hlate).2]; rfl
  | ignored | ticked => exact (hw c x hx rfl halone).agree (.of_eq rfl rfl rfl) rfl

theorem fate_of_run {acts : List Action} (hrun : exec (step true iter) new acts = some w)
    (hheard : Along (step true iter) (Heard i) new acts) (hx : w.calls[c]? = some x) (hid : x.id = i)
    (halone : w.Alone c i) :
    Fate w c x := by
  have hinv : w.Owned ∧ ∀ c x, w.calls[c]? = some x → x.id = i → w.Alone c i → Fate w c x := by
    refine exec_keeps_along (P := fun w => w.Owned ∧ ∀ c x, w.calls[c]? = some x → x.id = i → w.Alone c i → Fate w c x)
      ?_ ⟨owned_new, fun c x hx => by cases hx⟩ hheard hrun
    intro s a t hC hP hstep
    have hs := step_cases hstep
    exact ⟨hs.owned hP.1, fun c x hx hid ha => hs.fate hC hP.1 hP.2 hx hid ha⟩
  exact hinv.2 c x hx hid halone

theorem resolution_of_arrival {pre post : List Action} {proof : AckProof} {v : Confirmations} {pa : PendingAck}
    (hrun : exec (step true iter) new (pre ++ .arrive i proof :: post) = some w)
    (hpre : exec (step true iter) new pre = some v) (hget : v.pending.get? i = some pa)
    (haccepts : pa.accepts proof = true) :
    ∃ r ∈ w.resolutions, r.id = i := by
  obtain ⟨v', hpre', hpost⟩ := exec_append.mp hrun
  obtain rfl := mem_unique hpre hpre'
  obtain ⟨t, ht, hpost⟩ := exec_cons.mp hpost
  refine exec_keeps (P := fun w : Confirmations => ∃ r ∈ w.resolutions, r.id = i) ?_ ?_ hpost
  · rintro s a t ⟨r, hr, rfl⟩ hstep
    obtain ⟨r', hr', hid, -⟩ := (step_cases hstep).resolution_stays hr
    exact ⟨r', hr', hid⟩
  · have hresolve : v.pending.resolve i proof = some (pa, GoMap.delete v.pending i) := by
      rw [PendingAcks.resolve, hget, bind_some, if_pos haccepts]
    simp only [step, hresolve] at ht
    obtain rfl := Option.some.inj ht
    exact ⟨_, mem_append_right _ mem_cons_self, rfl⟩

/-- When the call has returned and the acknowledgements are reported, an authentic one that came while the registration
    was there has led to one report: the call has returned without an error, or `onDelivered` was called once. --/
theorem ack_reported_once {pre post : List Action} {proof : AckProof} {v : Confirmations} {pa : PendingAck}
    {result : SendResult} (hrun : exec (step true iter) new (pre ++ .arrive i proof :: post) = some w)
    (hheard : Along (step true iter) (Heard i) new (pre ++ .arrive i proof :: post))
    (hpre : exec (step true iter) new pre = some v) (hget : v.pending.get? i = some pa)
    (haccepts : pa.accepts proof = true) (hx : w.calls[c]? = some x) (hid : x.id = i)
    (halone : ∀ (c' : Nat) (y : SendCall), w.calls[c']? = some y → y.id = i → c' = c)
    (hreturned : x.phase = .returned result) (hreported : ∀ r ∈ w.resolutions, r.id = i → r.reported = true) :
    result = .confirmed ∧ w.delivered.countP (fun e => e.1 = i) = 0 ∨
      result ≠ .confirmed ∧ w.delivered.countP (fun e => e.1 = i) = 1 := by
  obtain ⟨r, hr, hri⟩ := resolution_of_arrival hrun hpre hget haccepts
  have hfate := fate_of_run hrun hheard hx hid fun c' hc' => by
    obtain ⟨y, hy, hyi⟩ := map_eq_some_iff.mp hc'
    exact halone c' y hy hyi
  subst hid
  cases hfate with
  | registered _ _ _ hun | retained _ _ hun | gone _ hun => exact absurd hri (hun r hr)
  | resolved _ _ _ _ _ hquiet hphase =>
    refine .inl ⟨?_, hquiet⟩
    cases result <;> simp [hreturned, SendPhase.confirmed] at hphase ⊢
  | @late r' _ hone _ hcount hphase =>
    obtain ⟨hid', k, hk, -⟩ := hone
    rw [hreported r' (mem_of_getElem? hk) hid'] at hcount
    refine .inr ⟨?_, hcount⟩
    cases result <;> simp [hreturned, SendPhase.gaveUp] at hphase ⊢

namespace OneCall

def iteration : GoMap.Iteration TransferID PendingAck := .inOrder

def sent : TransferID := .replicate 32 7

def unanswered : List Action := [.register sent "peer-1" [1] [2], .timeout 0, .timeout 0, .timeout 0]

end OneCall

open OneCall in
theorem ack_reported_once_late : ∃ w, exec (step true iteration) new
      (unanswered ++ [.retain 0] ++ .arrive sent (.signed [1]) :: [.check 0, .unregister 0, .report 0]) = some w ∧
    w.delivered.countP (fun e => e.1 = sent) = 1 := by
  refine ⟨_, rfl, ?_⟩
  have h := ack_reported_once (rfl : exec (step true iteration) new
      (unanswered ++ [.retain 0] ++ .arrive sent (.signed [1]) :: [.check 0, .unregister 0, .report 0]) = some _)
    (by decide : Along (step true iteration) (Heard sent) new
      (unanswered ++ [.retain 0] ++ .arrive sent (.signed [1]) :: [.check 0, .unregister 0, .report 0]))
    rfl rfl rfl (c := 0) (x := ⟨sent, "peer-1", .returned .notConfirmed⟩) rfl rfl
    (fun c' y hy _ => by have := (lt_of_getElem? hy); exact Nat.lt_one_iff.mp this) rfl (by decide)
  exact (h.resolve_left fun h => by cases h.1).2

open OneCall in
/-- The acknowledgement comes between the last timeout and `retainForLateAck`: the registration is there, it is
    resolved, and neither the caller nor `onDelivered` hears of it. --/
theorem ack_lost_before_retain : ∃ v w, exec (step true iteration) new unanswered = some v ∧
    (v.pending.get? sent).any (·.accepts (.signed [1])) ∧
    exec (step true iteration) new
      (unanswered ++ .arrive sent (.signed [1]) :: [.report 0, .retain 0, .check 0, .unregister 0]) = some w ∧
    w.calls = [⟨sent, "peer-1", .returned .notConfirmed⟩] ∧ w.resolutions.all (·.reported) ∧ w.delivered = [] :=
  ⟨_, _, rfl, rfl, rfl, rfl, rfl, rfl⟩

end Confirmations
end SyncSwarm.Transfer
