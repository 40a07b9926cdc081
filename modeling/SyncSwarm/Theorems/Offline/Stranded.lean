import SyncSwarm.Theorems.Offline.Kept
import SyncSwarm.Transfer.Mail

/-! Mail for a recipient that holds a circuit: what comes into the queue behind the flush waits for the next circuit. -/

namespace SyncSwarm.Transfer
open Lib List Option GoMap

namespace OfflineRelay
variable {w : OfflineRelay} {a : Action} {v : View} {n : String}

theorem Moves.queue_nil (h : Moves w a v) (hother : ∀ c x, a = .enqueue c → w.stores[c]? = some x → n ≠ x.nodeID)
    (hnil : w.offline.queue n = []) : v.queue n = [] := by
  cases h with
  | @enqueued c x hx =>
    show (w.offline.store x.nodeID x.blob).queue n = []
    rw [Queues.queue_store, if_neg (hother c x rfl hx), hnil]
  | flushing | cleared =>
    show Queues.queue (GoMap.delete w.offline _) n = []
    rw [Queues.queue_delete, hnil, ite_self]
  | expired =>
    show (w.offline.expire w.now).queue n = []
    rw [Queues.queue_expire, hnil]
    rfl
  | _ => exact hnil

structure View.Passes (v : View) (n : String) : Prop where
  flushes : ∀ x ∈ v.flushes, x.nodeID = n → x.rest = []
  redeliveries : ∀ x ∈ v.redeliveries, x.nodeID ≠ n
  sent : ∀ e ∈ v.sent, e.1 ≠ n

theorem Moves.passes (h : Moves w a v) (hinner : MailRelay.isInner a) (hw : w.view.Passes n) : v.Passes n := by
  have hset : ∀ {c : Nat} {x : RedeliverCall} (phase : RedeliverPhase), w.redeliveries[c]? = some x →
      ∀ y ∈ w.redeliveries.set c { x with phase }, y.nodeID ≠ n := by
    intro c x phase hx y hy
    rcases mem_or_eq_of_mem_set hy with hy | rfl
    · exact hw.redeliveries y hy
    · exact hw.redeliveries x (mem_of_getElem? hx)
  have hflush : ∀ {c : Nat} {x : FlushCall} {pb : PendingBlob} {rest : List PendingBlob}, w.flushes[c]? = some x →
      x.phase = .sending (pb :: rest) → x.nodeID ≠ n := by
    intro c x pb rest hx hp hn
    have hnil := hw.flushes x (mem_of_getElem? hx) hn
    rw [FlushCall.rest, hp] at hnil
    cases hnil
  have hrest : ∀ {c : Nat} {x : FlushCall} {phase : FlushPhase}, (x.nodeID = n → { x with phase }.rest = []) →
      ∀ y ∈ w.flushes.set c { x with phase }, y.nodeID = n → y.rest = [] := by
    intro c x phase hx y hy hn
    rcases mem_or_eq_of_mem_set hy with hy | rfl
    · exact hw.flushes y hy hn
    · exact hx hn
  have hsent : ∀ {m : String} {pb : PendingBlob}, m ≠ n → ∀ e ∈ w.sent ++ [(m, pb)], e.1 ≠ n := by
    intro m pb hm e he
    rcases mem_append_single.mp he with he | rfl
    · exact hw.sent e he
    · exact hm
  cases h with
  | same | enqueued | expired | ticked => exact ⟨hw.flushes, hw.redeliveries, hw.sent⟩
  | flushing | redelivering => cases hinner
  | flushSent hx hp => exact ⟨hrest fun hn => absurd hn (hflush hx hp), hw.redeliveries, hsent (hflush hx hp)⟩
  | flushSkipped hx hp => exact ⟨hrest fun hn => absurd hn (hflush hx hp), hw.redeliveries, hw.sent⟩
  | flushed hx hp => exact ⟨hrest fun _ => rfl, hw.redeliveries, hw.sent⟩
  | redelivered hx hp => exact ⟨hw.flushes, hset _ hx, hsent (hw.redeliveries _ (mem_of_getElem? hx))⟩
  | redeliverSkipped hx | redeliverEnded hx | cleared hx => exact ⟨hw.flushes, hset _ hx, hw.sent⟩

end OfflineRelay

namespace MailRelay
variable {cfg : RelayConfig} {w u : MailRelay} {op : Op} {id : String}

def served (w : MailRelay) (id : String) : Bool :=
  ((w.reservations.get? id).bind fun rc => w.serves[rc]?).any fun x => x.phase ≠ .registered

/-- No blob comes into the queue of a node that is served. --/
def calm (w : MailRelay) : Op → Bool
  | .off (.enqueue c) => w.off.stores[c]?.all fun x => !w.served x.nodeID
  | _ => true

/-- No call is under way. --/
def idle (w : MailRelay) : Bool :=
  w.off.stores.all (·.phase = .deleting []) && w.off.flushes.all (·.phase = .done) &&
    w.off.redeliveries.all (fun y => y.phase = .done true ∨ y.phase = .done false) && w.off.expired.isEmpty &&
    w.serves.all (·.phase ≠ .registered) && w.forwards.all (·.phase = .done) && w.rounds.all (·.rest.isEmpty)

/-- What the relay does by itself, without a connection. --/
def own : Op → Bool
  | .round _ _ | .next _ | .off _ => true
  | _ => false

def Drained (w : MailRelay) : Prop :=
  ∀ id rc, w.reservations.get? id = some rc → ∃ x, w.serves[rc]? = some x ∧ x.nodeID = id ∧
    (x.phase ≠ .registered → w.off.offline.queue id = [])

theorem Drained.same (h : w.Drained) (hres : u.reservations = w.reservations) (hserves : u.serves = w.serves)
    (hqueue : ∀ id, w.served id → w.off.offline.queue id = [] → u.off.offline.queue id = []) : u.Drained := by
  intro id rc hrc
  rw [hres] at hrc
  obtain ⟨x, hx, hid, hnil⟩ := h id rc hrc
  refine ⟨x, hserves ▸ hx, hid, fun hphase => hqueue id ?_ (hnil hphase)⟩
  rw [served, hrc, bind_some, hx]
  exact decide_eq_true hphase

theorem step_drained (h : w.Drained) (hcalm : w.calm op) (hstep : step cfg w op = some u) : u.Drained := by
  cases op with
  | forward nextNode blob =>
    cases hstep
    exact h.same rfl rfl fun _ _ hnil => hnil
  | written c ok =>
    obtain ⟨x, -, hstep⟩ := bind_eq_some_iff.mp hstep
    split at hstep
    · cases hstep
      exact h.same rfl rfl fun _ _ hnil => hnil
    · cases hstep
  | dialed c ok =>
    obtain ⟨x, -, hstep⟩ := bind_eq_some_iff.mp hstep
    split at hstep
    · cases hstep
      split
      · exact h.same rfl rfl fun _ _ hnil => hnil
      · refine h.same rfl rfl fun _ _ hnil => ?_
        show Queues.queue (w.off.store cfg x.nextNode x.blob).offline _ = []
        rw [OfflineRelay.store]
        split <;> exact hnil
    · cases hstep
  | serve nodeID =>
    cases hstep
    rw [serve]
    split
    · exact h
    intro id rc hrc
    rw [get?_set] at hrc
    split at hrc
    next heq =>
      cases hrc
      exact ⟨_, getElem?_concat_length, heq.symm, fun hphase => absurd rfl hphase⟩
    · obtain ⟨x, hx, hid, hnil⟩ := h id rc hrc
      exact ⟨x, by rwa [getElem?_append_left (lt_of_getElem? hx)], hid, hnil⟩
  | flush c =>
    obtain ⟨x, hx, hstep⟩ := bind_eq_some_iff.mp hstep
    split at hstep
    · obtain ⟨off, hoff, rfl⟩ := map_eq_some_iff.mp hstep
      cases hoff
      intro id rc hrc
      obtain ⟨y, hy, hid, hnil⟩ := h id rc hrc
      show ∃ z, (w.serves.set c _)[rc]? = some z ∧ z.nodeID = id ∧
        (_ → Queues.queue (GoMap.delete w.off.offline x.nodeID) id = [])
      rw [Queues.queue_delete]
      by_cases hcr : c = rc
      · subst hcr
        cases mem_unique hx hy
        exact ⟨_, getElem?_set_self (lt_of_getElem? hx), hid, fun _ => if_pos hid.symm⟩
      · exact ⟨y, by rwa [getElem?_set_ne hcr], hid, fun hphase => by rw [hnil hphase, ite_self]⟩
    · cases hstep
  | close c =>
    obtain ⟨x, hx, hstep⟩ := bind_eq_some_iff.mp hstep
    split at hstep
    · split at hstep
      · cases hstep
        -- A circuit that stays belongs to another call.
        have hkept : ∀ id rc, w.reservations.get? id = some rc → rc ≠ c →
          ∃ y, (w.serves.set c { x with phase := .closed })[rc]? = some y ∧
            y.nodeID = id ∧ (y.phase ≠ .registered → w.off.offline.queue id = []) := by
          intro id rc hrc hne
          obtain ⟨y, hy, hid, hnil⟩ := h id rc hrc
          exact ⟨y, by rwa [getElem?_set_ne (Ne.symm hne)], hid, hnil⟩
        have hown : ∀ {id}, w.reservations.get? id = some c → id = x.nodeID := by
          intro id hid
          obtain ⟨y, hy, hy', -⟩ := h id c hid
          cases mem_unique hx hy
          exact hy'.symm
        rw [close]
        split
        · intro id rc hrc
          by_cases hid : id = x.nodeID
          · rw [hid] at hrc
            cases (get?_delete_self _ _).symm.trans hrc
          · have hrc : w.reservations.get? id = some rc := (get?_delete_ne _ hid).symm.trans hrc
            exact hkept id rc hrc fun heq => hid (hown (heq ▸ hrc))
        next hother =>
          intro id rc hrc
          exact hkept id rc hrc fun heq => hother (hown (heq ▸ hrc) ▸ heq ▸ hrc)
      · cases hstep
    · cases hstep
  | round recipients addrByID =>
    obtain ⟨-, rfl⟩ := ite_none_right_eq_some.mp hstep |>.imp_right Option.some.inj
    exact h.same rfl rfl fun _ _ hnil => hnil
  | next r =>
    obtain ⟨x, -, hstep⟩ := bind_eq_some_iff.mp hstep
    split at hstep
    · cases hstep
    · split at hstep
      · cases hstep
        rw [redeliver]
        split
        · exact h.same rfl rfl fun _ _ hnil => hnil
        · split <;> exact h.same rfl rfl fun _ _ hnil => hnil
      · cases hstep
  | off a =>
    rw [step] at hstep
    split at hstep
    · obtain ⟨off, hoff, rfl⟩ := map_eq_some_iff.mp hstep
      refine h.same rfl rfl fun id hserved hnil => (OfflineRelay.step_cases hoff).queue_nil ?_ hnil
      rintro c x rfl hx rfl
      rw [calm, hx, all_some, hserved] at hcalm
      cases hcalm
    · cases hstep

/-- In a run in which no blob comes into the queue of a node that is served, nothing waits for a node with a circuit
    when no call is under way. --/
theorem reserved_mail_sent {ops : List Op} (hrun : exec (step cfg) .new ops = some w)
    (hcalm : Along (step cfg) (fun w op => w.calm op) .new ops) (hidle : w.idle) (hres : (w.reservationFor id).isSome) :
    Leads (step cfg) (own ·) (fun t => ∀ pb ∈ w.off.offline.queue id, w.off.now < pb.expiry →
      (id, pb) ∈ t.off.sent) w := by
  have hnew : new.Drained := fun id rc h => by cases (get?_empty id).symm.trans h
  have hdrained : w.Drained := exec_keeps_along (fun _ _ _ hop h hstep => step_drained h hop hstep) hnew hcalm hrun
  obtain ⟨rc, hrc⟩ := isSome_iff_exists.mp hres
  rw [reservationFor] at hrc
  split at hrc
  · cases hrc
  obtain ⟨x, hx, -, hnil⟩ := hdrained id rc hrc
  simp only [idle, Bool.and_eq_true] at hidle
  have hphase := all_eq_true.mp hidle.1.1.2 x (mem_of_getElem? hx)
  refine Leads.now fun pb hpb => ?_
  rw [hnil (of_decide_eq_true hphase)] at hpb
  cases hpb

theorem own_passes (hown : own op) (hstep : step cfg w op = some u)
    (h : (w.reservationFor id).isSome ∧ w.off.view.Passes id) :
    (u.reservationFor id).isSome ∧ u.off.view.Passes id := by
  cases op with
  | forward | written | dialed | serve | flush | close => cases hown
  | round recipients addrByID =>
    obtain ⟨-, rfl⟩ := ite_none_right_eq_some.mp hstep |>.imp_right Option.some.inj
    exact h
  | next r =>
    obtain ⟨x, -, hstep⟩ := bind_eq_some_iff.mp hstep
    split at hstep
    · cases hstep
    next other rest _ =>
    split at hstep
    · cases hstep
      rw [redeliver]
      split
      · exact h
      next hnone =>
        split
        · exact h
        · refine ⟨h.1, h.2.flushes, fun y hy => ?_, h.2.sent⟩
          rcases mem_append_single.mp hy with hy | rfl
          · exact h.2.redeliveries y hy
          · exact fun heq : other = id => hnone (heq ▸ h.1)
    · cases hstep
  | off a =>
    rw [step] at hstep
    split at hstep
    next hinner =>
      obtain ⟨off, hoff, rfl⟩ := map_eq_some_iff.mp hstep
      exact ⟨h.1, (OfflineRelay.step_cases hoff).passes hinner h.2⟩
    · cases hstep

/-! ### A store beside a flush -/

namespace Sample

def keeping : RelayConfig := { storeForward := true, offlineTTL := 600, hasStorage := true }

def beside : List Op :=
  [.forward "b" [1], .dialed 0 false, .serve "b", .flush 0, .off (.flushed 0), .off (.enqueue 0), .off (.save 0)]

def before : List Op :=
  [.forward "b" [1], .dialed 0 false, .off (.enqueue 0), .off (.save 0), .serve "b", .flush 0, .off (.flushNext 0 true),
    .off (.flushed 0)]

end Sample

open Sample in
theorem reserved_mail_sent_before :
    ∃ w, exec (step keeping) .new before = some w ∧ w.idle ∧ w.off.sent = [("b", ⟨1, [1], 600⟩)] ∧
    Leads (step keeping) (own ·) (fun t => ∀ pb ∈ w.off.offline.queue "b", w.off.now < pb.expiry →
      ("b", pb) ∈ t.off.sent) w := by
  obtain ⟨w, hw, hall⟩ := map_eq_some_iff.mp (show (exec (step keeping) .new before).map
    (fun w => (w.idle, w.off.sent, (w.reservationFor "b").isSome)) =
      some (true, [("b", ⟨1, [1], 600⟩)], true) by decide +kernel)
  obtain ⟨hidle, hrest⟩ := Prod.mk.inj hall
  obtain ⟨hsent, hres⟩ := Prod.mk.inj hrest
  exact ⟨w, hw, hidle, hsent, reserved_mail_sent hw (by decide +kernel) hidle hres⟩

open Sample in
/-- The blob stays in the queue, whatever the relay's own rounds do. --/
theorem mail_stranded : ∃ w pb, exec (step keeping) .new beside = some w ∧ w.idle ∧ (w.reservationFor "b").isSome ∧
    w.off.offline.queue "b" = [pb] ∧ w.off.now < pb.expiry ∧
    ¬Leads (step keeping) (own ·) (fun t => ("b", pb) ∈ t.off.sent) w := by
  obtain ⟨w, hw, hall⟩ :=
    map_eq_some_iff.mp (show (exec (step keeping) .new beside).map (fun w => (w.idle && (w.reservationFor "b").isSome &&
    w.off.redeliveries.isEmpty, w.off.offline.queue "b", w.off.now, w.off.sent)) =
      some (true, [⟨1, [1], 600⟩], 0, []) by decide +kernel)
  simp only [Prod.mk.injEq, Bool.and_eq_true, List.isEmpty_iff] at hall
  obtain ⟨⟨⟨hidle, hres⟩, hredeliveries⟩, hqueue, hnow, hsent⟩ := hall
  refine ⟨w, _, hw, hidle, hres, hqueue, hnow ▸ by decide, not_leads (fun _ _ _ h hown hstep => own_passes hown hstep h)
    (fun t h hmem => h.2.sent _ hmem rfl) ⟨hres, ⟨fun x hx _ => ?_, ?_, ?_⟩⟩⟩
  · simp only [idle, Bool.and_eq_true] at hidle
    have hdone : x.phase = .done := of_decide_eq_true (all_eq_true.mp hidle.1.1.1.1.1.2 x hx)
    rw [FlushCall.rest, hdone]
  · show ∀ x ∈ w.off.redeliveries, _
    rw [hredeliveries]
    exact fun x hx => absurd hx not_mem_nil
  · show ∀ x ∈ w.off.sent, _
    rw [hsent]
    exact fun x hx => absurd hx not_mem_nil

end MailRelay
end SyncSwarm.Transfer
