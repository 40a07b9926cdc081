import SyncSwarm.Lib.Lists
import SyncSwarm.Transfer.Offline

/-! What becomes of a blob that a relay has taken: it is in its queue until it is sent, expires or is dropped. -/

namespace SyncSwarm.Transfer
open Lib List Option GoMap

namespace Queues
variable {m : Queues} {n n' : String} {now : Nat}

theorem queue_set (q : List PendingBlob) : queue (GoMap.set m n q) n' = if n' = n then q else m.queue n' := by
  rw [queue, get?_set]
  split <;> rfl

theorem queue_delete : queue (GoMap.delete m n) n' = if n' = n then [] else m.queue n' := by
  split
  · next h => rw [h, queue, get?_delete_self]; rfl
  · next h => rw [queue, get?_delete_ne _ h]; rfl

theorem queue_store {pb : PendingBlob} : (m.store n pb).queue n' =
    if n' = n then (m.queue n ++ [pb]).drop ((m.queue n ++ [pb]).length - maxOfflinePerNode) else m.queue n' :=
  queue_set _

theorem queue_expireAt :
    (expireAt now m n).queue n' = if n' = n then (m.queue n').filter (now < ·.expiry) else m.queue n' := by
  rw [expireAt]
  split
  next hnil =>
    rw [queue_delete]
    split
    · next h => rw [h, hnil]
    · rfl
  · rw [queue_set]
    split
    · next h => rw [h]
    · rfl

theorem queue_expire : (m.expire now).queue n = (m.queue n).filter (now < ·.expiry) := by
  have hloop : ∀ (ids : List String) (m : Queues),
      queue (ids.foldl (expireAt now) m) n = if n ∈ ids then (m.queue n).filter (now < ·.expiry) else m.queue n := by
    intro ids
    induction ids with
    | nil => simp
    | cons id ids ih =>
      intro m
      rw [foldl_cons, ih, queue_expireAt]
      by_cases hid : n = id
      · simp [hid]
      · simp [hid]
  refine (hloop (GoMap.keys m) m).trans ?_
  split
  · rfl
  next h =>
    have hnone : m.get? n = none := not_isSome_iff_eq_none.mp fun hs => h (mem_keys.mpr hs)
    simp [queue, hnone]

end Queues

def FlushCall.rest (x : FlushCall) : List PendingBlob :=
  match x.phase with
  | .sending rest => rest
  | .done => []

def RedeliverCall.sending (x : RedeliverCall) : Bool :=
  match x.phase with
  | .sending _ => true
  | _ => false

namespace OfflineRelay
variable {cfg : RelayConfig} {w u : OfflineRelay} {a : Action}

structure View where
  queue : String → List PendingBlob
  flushes : List FlushCall
  redeliveries : List RedeliverCall
  now : Nat
  accepted : List (String × PendingBlob)
  sent : List (String × PendingBlob)
  dropped : List (String × PendingBlob)

/-- What the queues and the calls of the relay hold, apart from the disk. --/
def view (w : OfflineRelay) : View :=
  ⟨w.offline.queue, w.flushes, w.redeliveries, w.now, w.accepted, w.sent, w.dropped⟩

theorem view_onDisk (f : OfflineDisk → OfflineDisk) : (w.onDisk cfg f).view = w.view := by
  rw [onDisk]; split <;> rfl

/-- What each action can do. --/
inductive Moves (w : OfflineRelay) : Action → View → Prop where
  | same {b : Action} : Moves w b w.view
  | enqueued {c x} : w.stores[c]? = some x → Moves w (.enqueue c)
      { w.view with
        queue := (w.offline.store x.nodeID x.blob).queue
        accepted := w.accepted ++ [(x.nodeID, x.blob)]
        dropped := w.dropped ++ (Queues.overflow (w.offline.queue x.nodeID ++ [x.blob])).map fun pb => (x.nodeID, pb) }
  | flushing {n} : Moves w (.flush n)
      { w.view with
        queue := Queues.queue (GoMap.delete w.offline n)
        flushes := w.flushes ++ [⟨n, .sending (w.offline.queue n)⟩] }
  | flushSent {c x pb rest} : w.flushes[c]? = some x → x.phase = .sending (pb :: rest) → Moves w (.flushNext c true)
      { w.view with flushes := w.flushes.set c { x with phase := .sending rest }, sent := w.sent ++ [(x.nodeID, pb)] }
  | flushSkipped {c x pb rest ok} : w.flushes[c]? = some x → x.phase = .sending (pb :: rest) →
    ¬(w.now < pb.expiry ∧ ok = true) →
    Moves w (.flushNext c ok) { w.view with flushes := w.flushes.set c { x with phase := .sending rest } }
  | flushed {c x} : w.flushes[c]? = some x → x.phase = .sending [] →
    Moves w (.flushed c) { w.view with flushes := w.flushes.set c { x with phase := .done } }
  | redelivering {n addr} : Moves w (.redeliver n addr)
      { w.view with redeliveries := w.redeliveries ++ [⟨n, addr, .sending (w.offline.queue n)⟩] }
  | redelivered {c x pb rest} : w.redeliveries[c]? = some x → x.phase = .sending (pb :: rest) →
    Moves w (.redeliverNext c true)
      { w.view with
        redeliveries := w.redeliveries.set c { x with phase := .sending rest }, sent := w.sent ++ [(x.nodeID, pb)] }
  | redeliverSkipped {c x pb rest ok} : w.redeliveries[c]? = some x → x.phase = .sending (pb :: rest) →
    pb.expiry ≤ w.now →
    Moves w (.redeliverNext c ok) { w.view with redeliveries := w.redeliveries.set c { x with phase := .sending rest } }
  | redeliverEnded {c x phase} {b : Action} : w.redeliveries[c]? = some x → (∀ rest, phase ≠ .sending rest) →
    Moves w b { w.view with redeliveries := w.redeliveries.set c { x with phase } }
  | cleared {c x} : w.redeliveries[c]? = some x → x.phase = .sending [] → Moves w (.clear c)
      { w.view with
        queue := Queues.queue (GoMap.delete w.offline x.nodeID)
        redeliveries := w.redeliveries.set c { x with phase := .clearingStore } }
  | expired : Moves w .expire { w.view with queue := (w.offline.expire w.now).queue }
  | ticked {elapsed} : Moves w (.tick elapsed) { w.view with now := w.now + elapsed }

theorem step_cases (h : step cfg w a = some u) : Moves w a u.view := by
  cases a with
  | store n blob =>
    cases h
    rw [store]
    split <;> exact .same
  | enqueue c =>
    obtain ⟨x, hx, h⟩ := bind_eq_some_iff.mp h
    split at h
    · cases h
      exact .enqueued hx
    · cases h
  | save c | unsave c =>
    obtain ⟨x, hx, h⟩ := bind_eq_some_iff.mp h
    split at h
    · cases h
      rw [view_onDisk]
      exact .same
    · cases h
  | flush n =>
    cases h
    exact .flushing
  | flushNext c ok =>
    obtain ⟨x, hx, h⟩ := bind_eq_some_iff.mp h
    split at h
    next pb rest hp =>
      cases h
      rw [flushNext]
      split
      next hok =>
        obtain ⟨-, rfl⟩ := hok
        exact .flushSent hx hp
      · next hno => exact .flushSkipped hx hp hno
    · cases h
  | flushed c =>
    obtain ⟨x, hx, h⟩ := bind_eq_some_iff.mp h
    split at h
    next hp =>
      cases h
      rw [view_onDisk]
      exact .flushed hx hp
    · cases h
  | redeliver n addr =>
    cases h
    exact .redelivering
  | redeliverNext c ok =>
    obtain ⟨x, hx, h⟩ := bind_eq_some_iff.mp h
    split at h
    next pb rest hp =>
      cases h
      rw [redeliverNext]
      split
      · split
        next hok =>
          subst hok
          exact .redelivered hx hp
        · exact .redeliverEnded hx fun rest h => by cases h
      · next hexp => exact .redeliverSkipped hx hp (Nat.not_lt.mp hexp)
    · cases h
  | clear c =>
    obtain ⟨x, hx, h⟩ := bind_eq_some_iff.mp h
    split at h
    next hp =>
      cases h
      exact .cleared hx hp
    · cases h
  | clearStore c =>
    obtain ⟨x, hx, h⟩ := bind_eq_some_iff.mp h
    split at h
    · cases h
      rw [view_onDisk]
      exact .redeliverEnded hx fun rest h => by cases h
    · cases h
  | expire =>
    cases h
    exact .expired
  | unsaveExpired k =>
    obtain ⟨e, -, rfl⟩ := map_eq_some_iff.mp h
    rw [view_onDisk]
    exact .same
  | tick elapsed =>
    cases h
    exact .ticked

/-! ### Accounts -/

/-- The blob is in its queue or on its way in a flush; or it was sent, has expired or was dropped. --/
def View.Accounted (v : View) (n : String) (pb : PendingBlob) : Prop :=
  pb ∈ v.queue n ∨ (∃ x ∈ v.flushes, x.nodeID = n ∧ pb ∈ x.rest) ∨ (n, pb) ∈ v.sent ∨ pb.expiry ≤ v.now ∨
    (n, pb) ∈ v.dropped

instance (v : View) (n : String) (pb : PendingBlob) : Decidable (v.Accounted n pb) :=
  inferInstanceAs (Decidable (_ ∨ _ ∨ _ ∨ _ ∨ _))

/-- Whatever is still in the queue that a redelivery has copied is in the rest of its copy, was sent or has expired. --/
def View.Copied (v : View) : Prop :=
  ∀ x ∈ v.redeliveries, ∀ rest, x.phase = .sending rest → ∀ pb ∈ v.queue x.nodeID,
    pb ∈ rest ∨ (x.nodeID, pb) ∈ v.sent ∨ pb.expiry ≤ v.now

/-- No write of a flush fails, and no blob comes into a queue that a redelivery is about to clear. --/
def Careful (w : OfflineRelay) : Action → Prop
  | .flushNext c ok => ∀ x ∈ w.flushes[c]?, ∀ pb ∈ x.rest.head?, w.now < pb.expiry → ok = true
  | .enqueue c => ∀ x ∈ w.stores[c]?, ∀ r ∈ w.redeliveries, r.nodeID = x.nodeID → r.sending = false
  | _ => True

instance (w : OfflineRelay) : ∀ a, Decidable (Careful w a)
  | .flushNext c _ => inferInstanceAs (Decidable (∀ x ∈ w.flushes[c]?, ∀ pb ∈ x.rest.head?, _ → _))
  | .enqueue c => inferInstanceAs (Decidable (∀ x ∈ w.stores[c]?, ∀ r ∈ w.redeliveries, _ → _))
  | .store _ _ | .save _ | .unsave _ | .flush _ | .flushed _ | .redeliver _ _ | .redeliverNext _ _
    | .clear _ | .clearStore _
  | .expire | .unsaveExpired _ | .tick _ => inferInstanceAs (Decidable True)

section
variable {v : View} {n : String} {pb : PendingBlob}

theorem mem_store_or_overflow {m : Queues} {new : PendingBlob} (h : pb ∈ m.queue n ++ [new]) :
    pb ∈ (m.store n new).queue n ∨ pb ∈ Queues.overflow (m.queue n ++ [new]) := by
  rw [Queues.queue_store, if_pos rfl, Queues.overflow, or_comm]
  rw [← take_append_drop ((m.queue n ++ [new]).length - maxOfflinePerNode) (m.queue n ++ [new])] at h
  exact mem_append.mp h

theorem rest_set {l : List FlushCall} {c : Nat} {x z : FlushCall} (hx : l[c]? = some x) (hnode : z.nodeID = x.nodeID)
    (h : ∃ y ∈ l, y.nodeID = n ∧ pb ∈ y.rest) :
    (∃ y ∈ l.set c z, y.nodeID = n ∧ pb ∈ y.rest) ∨ x.nodeID = n ∧ pb ∈ x.rest ∧ pb ∉ z.rest := by
  obtain ⟨y, hy, hn, hpb⟩ := h
  obtain ⟨j, hj⟩ := mem_iff_getElem?.mp hy
  by_cases hjc : c = j
  · subst hjc
    cases hx.symm.trans hj
    by_cases hrest : pb ∈ z.rest
    · refine .inl ⟨z, mem_of_getElem? (i := c) ?_, hnode.trans hn, hrest⟩
      rw [getElem?_set', if_pos rfl, hx]
      rfl
    · exact .inr ⟨hn, hpb, hrest⟩
  · refine .inl ⟨y, mem_of_getElem? (i := j) ?_, hn, hpb⟩
    rw [getElem?_set', if_neg hjc, hj]

theorem Moves.accounted (h : Moves w a v) (hcare : Careful w a) (hall : ∀ e ∈ w.view.accepted, w.view.Accounted e.1 e.2)
    (hcopied : w.view.Copied) : ∀ e ∈ v.accepted, v.Accounted e.1 e.2 := by
  cases h with
  | same | redelivering | redeliverSkipped | redeliverEnded => exact hall
  | @enqueued c x hx =>
    have hqueued : ∀ pb, pb ∈ w.offline.queue x.nodeID ++ [x.blob] → View.Accounted
        { w.view with
          queue := (w.offline.store x.nodeID x.blob).queue
          accepted := w.accepted ++ [(x.nodeID, x.blob)]
          dropped := w.dropped ++ (Queues.overflow (w.offline.queue x.nodeID ++ [x.blob])).map fun pb =>
            (x.nodeID, pb) }
        x.nodeID pb := by
      intro pb hpb
      rcases mem_store_or_overflow hpb with hkept | hover
      · exact .inl hkept
      · exact .inr (.inr (.inr (.inr (mem_append_right _ (mem_map.mpr ⟨pb, hover, rfl⟩)))))
    intro e he
    rcases mem_append_single.mp he with he | rfl
    · obtain hq | hf | hs | hexp | hd := hall e he
      · by_cases hn : e.1 = x.nodeID
        · rw [hn]
          exact hqueued e.2 (mem_append_left _ (hn ▸ hq))
        · refine .inl ?_
          show e.2 ∈ (w.offline.store x.nodeID x.blob).queue e.1
          rw [Queues.queue_store, if_neg hn]
          exact hq
      · exact .inr (.inl hf)
      · exact .inr (.inr (.inl hs))
      · exact .inr (.inr (.inr (.inl hexp)))
      · exact .inr (.inr (.inr (.inr (mem_append_left _ hd))))
    · exact hqueued x.blob (mem_append_right _ mem_cons_self)
  | @flushing n =>
    intro e he
    obtain hq | ⟨y, hy, hn, hpb⟩ | hrest := hall e he
    · by_cases hn : e.1 = n
      · exact .inr (.inl ⟨_, mem_append_right _ mem_cons_self, hn.symm, hn ▸ hq⟩)
      · refine .inl ?_
        show e.2 ∈ Queues.queue (GoMap.delete w.offline n) e.1
        rw [Queues.queue_delete, if_neg hn]
        exact hq
    · exact .inr (.inl ⟨y, mem_append_left _ hy, hn, hpb⟩)
    · exact .inr (.inr hrest)
  | @flushSent c x pb rest hx hp =>
    intro e he
    obtain hq | hf | hs | hrest := hall e he
    · exact .inl hq
    · rcases rest_set hx (z := { x with phase := .sending rest }) rfl hf with hf | ⟨hn, hmem, hnot⟩
      · exact .inr (.inl hf)
      · obtain heq | hmem := mem_cons.mp (show e.2 ∈ pb :: rest by simpa [FlushCall.rest, hp] using hmem)
        · exact .inr (.inr (.inl (mem_append_right _ (mem_singleton.mpr (Prod.ext hn.symm heq)))))
        · exact absurd hmem hnot
    · exact .inr (.inr (.inl (mem_append_left _ hs)))
    · exact .inr (.inr (.inr hrest))
  | @flushSkipped c x pb rest ok hx hp hskip =>
    intro e he
    obtain hq | hf | hrest := hall e he
    · exact .inl hq
    · rcases rest_set hx (z := { x with phase := .sending rest }) rfl hf with hf | ⟨-, hmem, hnot⟩
      · exact .inr (.inl hf)
      · -- No write fails, so the blob was skipped because it has expired.
        obtain heq | hmem := mem_cons.mp (show e.2 ∈ pb :: rest by simpa [FlushCall.rest, hp] using hmem)
        · refine .inr (.inr (.inr (.inl (Nat.not_lt.mp fun hlt => hskip ?_))))
          rw [heq] at hlt
          exact ⟨hlt, hcare x hx pb (by simp [FlushCall.rest, hp]) hlt⟩
        · exact absurd hmem hnot
    · exact .inr (.inr hrest)
  | @flushed c x hx hp =>
    intro e he
    obtain hq | hf | hrest := hall e he
    · exact .inl hq
    · rcases rest_set hx (z := { x with phase := .done }) rfl hf with hf | ⟨-, hmem, -⟩
      · exact .inr (.inl hf)
      · simp [FlushCall.rest, hp] at hmem
    · exact .inr (.inr hrest)
  | redelivered =>
    intro e he
    obtain hq | hf | hs | hrest := hall e he
    · exact .inl hq
    · exact .inr (.inl hf)
    · exact .inr (.inr (.inl (mem_append_left _ hs)))
    · exact .inr (.inr (.inr hrest))
  | @cleared c x hx hp =>
    intro e he
    obtain hq | hrest := hall e he
    · by_cases hn : e.1 = x.nodeID
      · rcases hcopied x (mem_of_getElem? hx) [] hp e.2 (hn ▸ hq) with hmem | hs | hexp
        · cases hmem
        · exact .inr (.inr (.inl (by rw [← hn] at hs; exact hs)))
        · exact .inr (.inr (.inr (.inl hexp)))
      · refine .inl ?_
        show e.2 ∈ Queues.queue (GoMap.delete w.offline x.nodeID) e.1
        rw [Queues.queue_delete, if_neg hn]
        exact hq
    · exact .inr hrest
  | expired =>
    intro e he
    obtain hq | hrest := hall e he
    · by_cases hlt : w.now < e.2.expiry
      · refine .inl ?_
        show e.2 ∈ (w.offline.expire w.now).queue e.1
        rw [Queues.queue_expire]
        exact mem_filter.mpr ⟨hq, decide_eq_true hlt⟩
      · exact .inr (.inr (.inr (.inl (Nat.not_lt.mp hlt))))
    · exact .inr hrest
  | ticked =>
    intro e he
    obtain hq | hf | hs | hexp | hd := hall e he
    · exact .inl hq
    · exact .inr (.inl hf)
    · exact .inr (.inr (.inl hs))
    · exact .inr (.inr (.inr (.inl (Nat.le_trans hexp (Nat.le_add_right _ _)))))
    · exact .inr (.inr (.inr (.inr hd)))

theorem View.Copied.shrink {v v' : View} (h : v.Copied) (hqueue : ∀ n pb, pb ∈ v'.queue n → pb ∈ v.queue n)
    (hredeliveries : v'.redeliveries = v.redeliveries) (hsent : ∀ e ∈ v.sent, e ∈ v'.sent) (hnow : v.now ≤ v'.now) :
    v'.Copied := by
  intro x hx rest hp pb hpb
  rw [hredeliveries] at hx
  rcases h x hx rest hp pb (hqueue _ _ hpb) with hmem | hs | hexp
  · exact .inl hmem
  · exact .inr (.inl (hsent _ hs))
  · exact .inr (.inr (Nat.le_trans hexp hnow))

theorem Moves.copied (h : Moves w a v) (hcare : Careful w a) (hcopied : w.view.Copied) : v.Copied := by
  cases h with
  | same | flushSkipped | flushed => exact hcopied
  | @enqueued c x hx =>
    intro y hy rest hp pb hpb
    have hn : y.nodeID ≠ x.nodeID := by
      intro hn
      have hsending := hcare x hx y hy hn
      rw [RedeliverCall.sending, hp] at hsending
      cases hsending
    rw [show pb ∈ _ ↔ pb ∈ (w.offline.store x.nodeID x.blob).queue y.nodeID from Iff.rfl, Queues.queue_store,
      if_neg hn] at hpb
    exact hcopied y hy rest hp pb hpb
  | @flushing n =>
    refine hcopied.shrink (fun n' pb hpb => ?_) rfl (fun _ he => he) (Nat.le_refl _)
    rw [show pb ∈ _ ↔ pb ∈ Queues.queue (GoMap.delete w.offline n) n' from Iff.rfl, Queues.queue_delete] at hpb
    split at hpb
    · cases hpb
    · exact hpb
  | flushSent => exact hcopied.shrink (fun _ _ hpb => hpb) rfl (fun _ he => mem_append_left _ he) (Nat.le_refl _)
  | @redelivering n addr =>
    intro y hy rest hp pb hpb
    rcases mem_append_single.mp hy with hy | rfl
    · exact hcopied y hy rest hp pb hpb
    · cases hp
      exact .inl hpb
  | @redelivered c x pb rest hx hp =>
    intro y hy rest' hp' pb' hpb'
    rcases mem_or_eq_of_mem_set hy with hy | rfl
    · rcases hcopied y hy rest' hp' pb' hpb' with hmem | hs | hexp
      · exact .inl hmem
      · exact .inr (.inl (mem_append_left _ hs))
      · exact .inr (.inr hexp)
    · obtain rfl : rest = rest' := by cases hp'; rfl
      rcases hcopied x (mem_of_getElem? hx) (pb :: rest) hp pb' hpb' with hmem | hs | hexp
      · rcases mem_cons.mp hmem with rfl | hmem
        · exact .inr (.inl (mem_append_right _ mem_cons_self))
        · exact .inl hmem
      · exact .inr (.inl (mem_append_left _ hs))
      · exact .inr (.inr hexp)
  | @redeliverSkipped c x pb rest ok hx hp hexp =>
    intro y hy rest' hp' pb' hpb'
    rcases mem_or_eq_of_mem_set hy with hy | rfl
    · exact hcopied y hy rest' hp' pb' hpb'
    · obtain rfl : rest = rest' := by cases hp'; rfl
      rcases hcopied x (mem_of_getElem? hx) (pb :: rest) hp pb' hpb' with hmem | hrest
      · rcases mem_cons.mp hmem with rfl | hmem
        · exact .inr (.inr hexp)
        · exact .inl hmem
      · exact .inr hrest
  | redeliverEnded _ hphase =>
    intro y hy rest hp
    rcases mem_or_eq_of_mem_set hy with hy | rfl
    · exact hcopied y hy rest hp
    · exact absurd hp (hphase rest)
  | @cleared c x hx hp =>
    intro y hy rest hp' pb hpb
    rw [show pb ∈ _ ↔ pb ∈ Queues.queue (GoMap.delete w.offline x.nodeID) y.nodeID from Iff.rfl,
      Queues.queue_delete] at hpb
    rcases mem_or_eq_of_mem_set hy with hy | rfl
    · split at hpb
      · cases hpb
      · exact hcopied y hy rest hp' pb hpb
    · cases hp'
  | expired =>
    refine hcopied.shrink (fun n pb hpb => ?_) rfl (fun _ he => he) (Nat.le_refl _)
    rw [show pb ∈ _ ↔ pb ∈ (w.offline.expire w.now).queue n from Iff.rfl, Queues.queue_expire] at hpb
    exact (mem_filter.mp hpb).1
  | ticked => exact hcopied.shrink (fun _ _ hpb => hpb) rfl (fun _ he => he) (Nat.le_add_right _ _)

end

/-- A run whose steps are careful has every blob that was taken on its account. --/
theorem accepted_accounted {as : List Action} (hcare : Along (step cfg) Careful new as)
    (hrun : exec (step cfg) new as = some w) :
    ∀ e ∈ w.accepted, w.view.Accounted e.1 e.2 := by
  refine (exec_keeps_along (P := fun w => (∀ e ∈ w.view.accepted, w.view.Accounted e.1 e.2) ∧ w.view.Copied)
    ?_ ⟨?_, ?_⟩ hcare hrun).1
  · intro w a u ha hw hstep
    have hmoves := step_cases hstep
    exact ⟨hmoves.accounted ha hw.1 hw.2, hmoves.copied ha hw.2⟩
  · intro e he
    cases he
  · intro x hx
    cases hx

namespace Held

def config : RelayConfig := ⟨true, 10, false⟩

def acts : List Action :=
  [.store "b" [1], .enqueue 0, .flush "b", .store "b" [2], .flushNext 0 true, .enqueue 1, .flushed 0,
   .redeliver "b" "addr", .tick 10, .redeliverNext 0 false, .expire]

end Held

open Held in
theorem accepted_accounted_run : ∃ w, exec (step config) new acts = some w ∧ Along (step config) Careful new acts ∧
    w.accepted = [("b", ⟨1, [1], 10⟩), ("b", ⟨2, [2], 10⟩)] ∧ ∀ e ∈ w.accepted, w.view.Accounted e.1 e.2 :=
  have hcare : Along (step config) Careful new acts := by decide
  ⟨_, rfl, hcare, rfl, accepted_accounted hcare rfl⟩

open Held in
/-- A blob is lost to a failed write of a flush; another one to the clearing of a queue that it was put into while the
    one before it was redelivered. --/
theorem accepted_lost :
    (∃ w, exec (step config) new [.store "b" [1], .enqueue 0, .flush "b", .flushNext 0 false, .flushed 0] = some w ∧
      ("b", ⟨1, [1], 10⟩) ∈ w.accepted ∧ ¬w.view.Accounted "b" ⟨1, [1], 10⟩) ∧
    ∃ w, exec (step config) new [.store "b" [1], .enqueue 0, .redeliver "b" "addr", .store "b" [2], .enqueue 1,
        .redeliverNext 0 true, .clear 0] = some w ∧
      ("b", ⟨2, [2], 10⟩) ∈ w.accepted ∧ ¬w.view.Accounted "b" ⟨2, [2], 10⟩ :=
  ⟨⟨_, rfl, by decide, by decide⟩, ⟨_, rfl, by decide, by decide⟩⟩

/-! ### Whose mail, and in which order -/

def View.mail (v : View) (n : String) : List PendingBlob := (v.accepted.filter (·.1 = n)).map (·.2)

/-- Mail of the node, in the order in which it came, and no more of it than a queue holds. --/
def View.Bundle (v : View) (n : String) (l : List PendingBlob) : Prop := l <+ v.mail n ∧ l.length ≤ maxOfflinePerNode

/-- What is held and what is being sent to a node is in the order in which it was accepted. --/
structure View.Ordered (v : View) : Prop where
  held : ∀ n, v.Bundle n (v.queue n)
  flushed : ∀ x ∈ v.flushes, v.Bundle x.nodeID x.rest
  redelivered : ∀ x ∈ v.redeliveries, ∀ rest, x.phase = .sending rest → v.Bundle x.nodeID rest
  sent : ∀ e ∈ v.sent, e ∈ v.accepted

section Order
variable {v : View} {n : String} {pb : PendingBlob} {rest l : List PendingBlob}

theorem View.Bundle.nil : v.Bundle n [] := ⟨nil_sublist _, Nat.zero_le _⟩

theorem View.Bundle.tail (h : v.Bundle n (pb :: rest)) : v.Bundle n rest :=
  ⟨(sublist_cons_self pb rest).trans h.1, Nat.le_of_succ_le h.2⟩

theorem View.Bundle.sublist (h : v.Bundle n l) (hsub : rest <+ l) :
    v.Bundle n rest := ⟨hsub.trans h.1, Nat.le_trans hsub.length_le h.2⟩

theorem View.Bundle.head (h : v.Bundle n (pb :: rest)) : (n, pb) ∈ v.accepted := by
  obtain ⟨e, he, rfl⟩ := mem_map.mp (h.1.subset mem_cons_self)
  obtain ⟨hmem, hn⟩ := mem_filter.mp he
  obtain rfl := of_decide_eq_true hn
  exact hmem

theorem View.Ordered.flushes_set (h : v.Ordered) {z : FlushCall} (hz : v.Bundle z.nodeID z.rest) (c : Nat) :
    ∀ x ∈ v.flushes.set c z, v.Bundle x.nodeID x.rest := by
  intro x hx
  rcases mem_or_eq_of_mem_set hx with hx | rfl
  · exact h.flushed x hx
  · exact hz

theorem View.Ordered.redeliveries_set (h : v.Ordered) {z : RedeliverCall}
    (hz : ∀ rest, z.phase = .sending rest → v.Bundle z.nodeID rest) (c : Nat) :
    ∀ x ∈ v.redeliveries.set c z, ∀ rest, x.phase = .sending rest → v.Bundle x.nodeID rest := by
  intro x hx
  rcases mem_or_eq_of_mem_set hx with hx | rfl
  · exact h.redelivered x hx
  · exact hz

theorem View.Ordered.sent_snoc (h : v.Ordered) (hpb : v.Bundle n (pb :: rest)) :
    ∀ e ∈ v.sent ++ [(n, pb)], e ∈ v.accepted := by
  intro e he
  rcases mem_append_single.mp he with he | rfl
  · exact h.sent e he
  · exact hpb.head

theorem View.Ordered.deleted (h : w.view.Ordered) (m n : String) :
    w.view.Bundle n (Queues.queue (GoMap.delete w.offline m) n) := by
  rw [Queues.queue_delete]
  split
  · exact .nil
  · exact h.held n

theorem Moves.ordered (h : Moves w a v) (hord : w.view.Ordered) : v.Ordered := by
  cases h with
  | same => exact hord
  | @enqueued c x _ =>
    -- More mail for a node leaves what was in order in order.
    have hmore : ∀ {n l}, w.view.Bundle n l →
        l <+ View.mail { w.view with accepted := w.accepted ++ [(x.nodeID, x.blob)] } n := by
      intro n l hl
      rw [View.mail, filter_append, map_append]
      exact hl.1.trans (sublist_append_left _ _)
    refine ⟨fun n => ?_, fun y hy => ⟨hmore (hord.flushed y hy), (hord.flushed y hy).2⟩,
      fun y hy rest hp => ⟨hmore (hord.redelivered y hy rest hp), (hord.redelivered y hy rest hp).2⟩,
      fun e he => mem_append_left _ (hord.sent e he)⟩
    show View.Bundle _ n ((w.offline.store x.nodeID x.blob).queue n)
    rw [Queues.queue_store]
    split
    · next hn =>
      subst hn
      refine ⟨(drop_sublist _ _).trans ?_, by rw [length_drop]; omega⟩
      simpa [View.mail, view, filter_append] using (hord.held x.nodeID).1
    · exact ⟨hmore (hord.held n), (hord.held n).2⟩
  | @flushing m =>
    refine ⟨hord.deleted m, fun x hx => ?_, hord.redelivered, hord.sent⟩
    rcases mem_append_single.mp hx with hx | rfl
    · exact hord.flushed x hx
    · exact hord.held m
  | @flushSent c x pb rest hx hp =>
    have hbundle : w.view.Bundle x.nodeID (pb :: rest) := by
      simpa [FlushCall.rest, hp] using hord.flushed x (mem_of_getElem? hx)
    exact ⟨hord.held, hord.flushes_set hbundle.tail c, hord.redelivered, hord.sent_snoc hbundle⟩
  | @flushSkipped c x pb rest ok hx hp _ =>
    have hbundle : w.view.Bundle x.nodeID (pb :: rest) := by
      simpa [FlushCall.rest, hp] using hord.flushed x (mem_of_getElem? hx)
    exact ⟨hord.held, hord.flushes_set hbundle.tail c, hord.redelivered, hord.sent⟩
  | @flushed c x _ _ =>
    exact ⟨hord.held, hord.flushes_set .nil c, hord.redelivered, hord.sent⟩
  | @redelivering m addr =>
    refine ⟨hord.held, hord.flushed, fun x hx rest hp => ?_, hord.sent⟩
    rcases mem_append_single.mp hx with hx | rfl
    · exact hord.redelivered x hx rest hp
    · exact RedeliverPhase.sending.inj hp ▸ hord.held m
  | @redelivered c x pb rest hx hp =>
    have hbundle := hord.redelivered x (mem_of_getElem? hx) _ hp
    exact ⟨hord.held, hord.flushed, hord.redeliveries_set (fun _ h => RedeliverPhase.sending.inj h ▸ hbundle.tail) c,
      hord.sent_snoc hbundle⟩
  | @redeliverSkipped c x pb rest ok hx hp _ =>
    have hbundle := hord.redelivered x (mem_of_getElem? hx) _ hp
    exact ⟨hord.held, hord.flushed,
      hord.redeliveries_set (fun _ h => RedeliverPhase.sending.inj h ▸ hbundle.tail) c, hord.sent⟩
  | @redeliverEnded c x phase _ _ hphase =>
    exact ⟨hord.held, hord.flushed, hord.redeliveries_set (fun rest hp => absurd hp (hphase rest)) c, hord.sent⟩
  | @cleared c x hx _ =>
    exact ⟨hord.deleted x.nodeID, hord.flushed, hord.redeliveries_set (fun rest hp => by cases hp) c, hord.sent⟩
  | expired =>
    refine ⟨fun n => ?_, hord.flushed, hord.redelivered, hord.sent⟩
    show View.Bundle _ n ((w.offline.expire w.now).queue n)
    rw [Queues.queue_expire]
    exact (hord.held n).sublist filter_sublist
  | ticked => exact ⟨hord.held, hord.flushed, hord.redelivered, hord.sent⟩

end Order

/-- In every run what is queued for a node and what a flush or a redelivery has still to send to it is mail that was
    taken on for that node, in the order of its arrival. Only such mail is sent to it. --/
theorem mail_ordered {as : List Action} (hrun : exec (step cfg) new as = some w) : w.view.Ordered := by
  refine exec_keeps (P := fun w => w.view.Ordered) (fun _ _ _ h hstep => (step_cases hstep).ordered h) ?_ hrun
  constructor
  all_goals simp [view, new, View.Bundle, Queues.queue]

open Held in
theorem mail_ordered_run :
    ∃ w, exec (step config) new acts = some w ∧ w.view.Ordered ∧ w.sent = [("b", ⟨1, [1], 10⟩)] :=
  have hrun : exec (step config) new acts = some _ := rfl
  ⟨_, hrun, mail_ordered hrun, rfl⟩

end OfflineRelay
end SyncSwarm.Transfer
