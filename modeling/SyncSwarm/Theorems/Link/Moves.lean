import SyncSwarm.Lib.Lists
import SyncSwarm.Link.Session

/-! What a step of the managers can do. -/

namespace SyncSwarm.Link
open Lib List Option

variable {η : Type}

def Dial.Gave (x : Dial η) (l : Nat) : Prop :=
  x.result = some l ∨ x.phase = .leaving (some l) ∨ x.phase = .returned (some l)

def Thread.Idle : Thread η → Prop
  | .cache _ _ | .done => True
  | _ => False

def Action.call? : Action η → Option (Call η)
  | .dial h addr destSignPub id eph | .dialCached h addr destSignPub id eph => some ⟨h, addr, destSignPub, id, eph⟩
  | _ => none

namespace World
variable {C : Crypto} {w u v : World η}

def Gave (w : World η) (d l : Nat) : Prop := ∃ x, w.dials[d]? = some x ∧ x.Gave l

def Returned (w : World η) (d l : Nat) : Prop := ∃ x, w.dials[d]? = some x ∧ x.phase = .returned (some l)

def counters (w : World η) : List UInt64 := w.heap.map (·.sendCtr)

structure Quiet (w u : World η) : Prop where
  sessions : u.sessions = w.sessions
  calls : u.calls = w.calls
  wire : u.wire = w.wire
  sends : u.sends = w.sends
  counters : u.counters = w.counters
  inbound : u.inbound = w.inbound
  handed : u.handed = w.handed
  closed : u.closed = w.closed
  links : ∀ h, (u.managers h).links = (w.managers h).links
  pending : ∀ h id d, (u.managers h).pending.get? id = some d → (w.managers h).pending.get? id = some d
  threads : ∀ x ∈ u.threads, x ∈ w.threads ∨ x.Idle
  gave : ∀ d l, u.Gave d l → w.Gave d l
  returned : ∀ d l, w.Returned d l → u.Returned d l

namespace Quiet

theorem refl (w : World η) : Quiet w w :=
  ⟨rfl, rfl, rfl, rfl, rfl, rfl, rfl, rfl, fun _ => rfl, fun _ _ _ h => h, fun _ h => .inl h, fun _ _ h => h,
    fun _ _ h => h⟩

theorem trans (h : Quiet w v) (k : Quiet v u) : Quiet w u where
  sessions := k.sessions.trans h.sessions
  calls := k.calls.trans h.calls
  wire := k.wire.trans h.wire
  sends := k.sends.trans h.sends
  counters := k.counters.trans h.counters
  inbound := k.inbound.trans h.inbound
  handed := k.handed.trans h.handed
  closed := k.closed.trans h.closed
  links x := (k.links x).trans (h.links x)
  pending x id d hd := h.pending x id d (k.pending x id d hd)
  threads x hx := (k.threads x hx).elim (h.threads x) .inr
  gave d l hd := h.gave d l (k.gave d l hd)
  returned d l hd := k.returned d l (h.returned d l hd)

end Quiet

theorem sessions_setLink {l : Nat} {x y : Link η} (hx : w.heap[l]? = some x) (hy : y.toSession = x.toSession) :
    (w.setLink l y).sessions = w.sessions := map_set_of_eq hx _ hy

theorem counters_setLink {l : Nat} {x y : Link η} (hx : w.heap[l]? = some x) (hy : y.sendCtr = x.sendCtr) :
    (w.setLink l y).counters = w.counters := map_set_of_eq hx _ hy

theorem calls_setDial {d : Nat} {x y : Dial η} (hx : w.dials[d]? = some x) (hy : y.toCall = x.toCall) :
    (w.setDial d y).calls = w.calls := map_set_of_eq hx _ hy

theorem getElem?_sessions {l : Nat} {x : Link η} (hx : w.heap[l]? = some x) : w.sessions[l]? = some x.toSession := by
  simp [sessions, hx]

theorem getElem?_calls {d : Nat} {x : Dial η} (hx : w.dials[d]? = some x) : w.calls[d]? = some x.toCall := by
  simp [calls, hx]

theorem gave_setDial {d d' l : Nat} {x : Dial η} (h : (w.setDial d x).Gave d' l) : w.Gave d' l ∨ d' = d ∧ x.Gave l := by
  obtain ⟨y, hy, hgave⟩ := h
  rw [setDial, getElem?_set] at hy
  split at hy
  next heq =>
    split at hy
    · cases hy
      exact .inr ⟨heq.symm, hgave⟩
    · cases hy
  · exact .inl ⟨y, hy, hgave⟩

theorem gave_push {d d' l l' : Nat} {x : Dial η} (hx : w.dials[d]? = some x)
    (h : (w.setDial d { x with result := x.result.or (some l) }).Gave d' l') : w.Gave d' l' ∨ d' = d ∧ l' = l := by
  rcases gave_setDial h with h | ⟨rfl, h | h | h⟩
  · exact .inl h
  · rcases or_eq_some_iff.mp h with h | ⟨-, h⟩
    · exact .inl ⟨x, hx, .inl h⟩
    · exact .inr ⟨rfl, (Option.some.inj h).symm⟩
  · exact .inl ⟨x, hx, .inr (.inl h)⟩
  · exact .inl ⟨x, hx, .inr (.inr h)⟩

theorem returned_setDial {d d' l : Nat} {x y : Dial η} (hx : w.dials[d]? = some x)
    (hphase : ∀ l, x.phase = .returned (some l) → y.phase = .returned (some l)) (h : w.Returned d' l) :
    (w.setDial d y).Returned d' l := by
  obtain ⟨z, hz, hl⟩ := h
  by_cases hd : d = d'
  · subst hd
    obtain rfl := mem_unique hx hz
    exact ⟨y, getElem?_set_self (lt_of_getElem? hx), hphase l hl⟩
  · exact ⟨z, (getElem?_set_ne hd).trans hz, hl⟩

theorem Quiet.setDial {d : Nat} {x y : Dial η} (hx : w.dials[d]? = some x) (hy : y.toCall = x.toCall)
    (hgave : ∀ l, y.Gave l → x.Gave l) (hphase : ∀ l, x.phase ≠ .returned l) : Quiet w (w.setDial d y) :=
  { Quiet.refl w with
    calls := calls_setDial hx hy
    gave := fun _ l h => (gave_setDial h).elim id fun ⟨hd, hl⟩ => ⟨x, hd ▸ hx, hgave l hl⟩
    returned := fun _ _ h => returned_setDial hx (fun _ hl => absurd hl (hphase _)) h }

theorem Quiet.setLink {l : Nat} {x y : Link η} (hx : w.heap[l]? = some x) (hy : y.toSession = x.toSession)
    (hctr : y.sendCtr = x.sendCtr) : Quiet w (w.setLink l y) :=
  { Quiet.refl w with sessions := sessions_setLink hx hy, counters := counters_setLink hx hctr }

theorem Quiet.setManager [DecidableEq η] (h : η) {f : Manager → Manager}
    (hlinks : (f (w.managers h)).links = (w.managers h).links)
    (hpending : ∀ id d, (f (w.managers h)).pending.get? id = some d → (w.managers h).pending.get? id = some d) :
    Quiet w (w.setManager h f) where
  links g := by
    by_cases hg : g = h
    · subst hg
      simpa [World.setManager] using hlinks
    · simp [World.setManager, hg]
  pending g id d hd := by
    by_cases hg : g = h
    · subst hg
      exact hpending id d (by simpa [World.setManager] using hd)
    · simpa [World.setManager, hg] using hd
  sessions := rfl
  calls := rfl
  wire := rfl
  sends := rfl
  counters := rfl
  inbound := rfl
  handed := rfl
  closed := rfl
  threads _ hx := .inl hx
  gave _ _ hl := hl
  returned _ _ hl := hl

theorem Quiet.setThread (t : Nat) {x : Thread η} (hx : x.Idle) : Quiet w { w with threads := w.threads.set t x } :=
  { Quiet.refl w with
    threads := fun _ hy => (mem_or_eq_of_mem_set hy).elim .inl fun h => .inr (h ▸ hx) }

variable [DecidableEq η]

def shut (w : World η) (l : Nat) (s : Session η) : World η :=
  { w.setManager s.mgr fun m => { m with links := m.links.delete s.id } with closed := w.closed ++ [l] }

def enter (w : World η) (l : Nat) (s : Session η) : World η :=
  w.setManager s.mgr fun m => { m with links := m.links.set s.id l }

/-- What each action can do. --/
inductive Moves (C : Crypto) (w : World η) : Action η → World η → Prop
  | quiet {a u} : Quiet w u → Moves C w a u
  | opened {a u} (c : Call η) : a.call? = some c → Quiet (w.dial c) u → Moves C w a u
  | requested {d u} (c : Call η) : c ∈ w.calls →
      Quiet { w with wire := w.wire ++ [⟨c.host, c.addr, .request ⟨c.id, C.publicKey c.eph⟩⟩] } u →
      Moves C w (.sendRequest d true) u
  | answered {h addr req eph} (aead : Bytes) (pr : ProofPayload) :
      answer C (w.managers h).self eph req = some (aead, pr) →
      Moves C w (.deliverRequest h addr req eph true)
        { w.establish ⟨req.linkID, aead, false, h⟩ addr none with wire := w.wire ++ [⟨h, addr, .proof pr⟩] }
  | accepted {h pr} (d : Nat) (c : Call η) (aead : Bytes) : (w.managers h).pending.get? pr.linkID = some d →
      w.calls[d]? = some c → accept C c.destSignPub c.eph pr = some aead →
      Moves C w (.deliverProof h pr) (w.establish ⟨pr.linkID, aead, true, h⟩ "" (some d))
  | found {h d} (l : Nat) : (w.managers h).links.get? d.linkID = some l →
      Moves C w (.deliverData h d) { w with threads := w.threads ++ [.opening l d] }
  | stored {t} (l : Nat) (dial : Option Nat) (s : Session η) (next : Thread η) : .store l dial ∈ w.threads →
      w.sessions[l]? = some s → (dial = none ∧ next = .notify l ∨ ∃ d, dial = some d ∧ next = .push l d) →
      Moves C w (.resume t) { w.enter l s with threads := w.threads.set t next }
  | notified {t u} (l : Nat) : .notify l ∈ w.threads → Quiet { w with inbound := w.inbound ++ [l] } u →
    Moves C w (.resume t) u
  | pushed {t u} (l d : Nat) (x : Dial η) : .push l d ∈ w.threads → w.dials[d]? = some x →
      Quiet (w.setDial d { x with result := x.result.or (some l) }) u → Moves C w (.resume t) u
  | handed {t u} (l : Nat) (d : DataPayload) (s : Session η) (cb : Callback) (pt : Bytes) :
      w.threads[t]? = some (.opening l d) → w.sessions[l]? = some s → C.gcmOpen s.aead d.nonce d.cipher = some pt →
      Quiet { w with handed := w.handed ++ [⟨l, cb, pt⟩] } u → Moves C w (.resume t) u
  | sent {l data ok u} (x : Link η) (wire : List (Sent η)) : w.held l = true → w.heap[l]? = some x →
      (∀ s ∈ wire, ∃ d, s.packet = .data d) →
      Quiet { w.setLink l (x.send C data).1 with
        sends := w.sends ++ [⟨l, data, (x.send C data).2⟩], wire := w.wire ++ wire } u →
      Moves C w (.send l data ok) u
  | closed {a u} (l : Nat) (s : Session η) : w.sessions[l]? = some s → Quiet (w.shut l s) u → Moves C w a u

/-! ### The steps -/

theorem Quiet.closeLink {l : Nat} {x : Link η} : Quiet (w.shut l x.toSession) (w.closeLink l x) where
  links g := by
    by_cases hg : g = x.mgr
    · subst hg
      simp [World.shut, World.closeLink, World.setManager]
    · simp [World.shut, World.closeLink, World.setManager, hg]
  pending g id d hd := by
    by_cases hg : g = x.mgr
    · subst hg
      simpa [World.shut, World.closeLink, World.setManager] using hd
    · simpa [World.shut, World.closeLink, World.setManager, hg] using hd
  sessions := rfl
  calls := rfl
  wire := rfl
  sends := rfl
  counters := rfl
  inbound := rfl
  handed := rfl
  closed := rfl
  threads _ hx := .inl hx
  gave _ _ hl := hl
  returned _ _ hl := hl

theorem moves_cacheLink {t : Nat} {key : PeerKey} {l : Nat} {x : Link η} (hx : w.heap[l]? = some x) :
    Moves C w (.resume t) ({ w with threads := w.threads.set t .done }.cacheLink key l x) := by
  let v := { w with threads := w.threads.set t .done }
  have hv : Quiet w v := Quiet.setThread t trivial
  rw [cacheLink]
  split
  · have hshut : Quiet (w.shut l x.toSession) (v.shut l x.toSession) := Quiet.setThread t trivial
    exact .closed l x.toSession (getElem?_sessions hx) (hshut.trans Quiet.closeLink)
  · have hlink : Quiet v (v.setLink l { x with peerKey := some key }) := Quiet.setLink hx rfl rfl
    exact .quiet (hv.trans (hlink.trans (Quiet.setManager x.mgr rfl fun _ _ h => h)))

theorem moves_resume {t : Nat} {x : Thread η} (hx : w.threads[t]? = some x) (hu : w.resume C t x = some u) :
    Moves C w (.resume t) u := by
  cases x with
  | store l dial =>
    obtain ⟨y, hy, rfl⟩ := map_eq_some_iff.mp hu
    refine .stored l dial y.toSession _ (mem_of_getElem? hx) (getElem?_sessions hy) ?_
    cases dial with
    | none => exact .inl ⟨rfl, rfl⟩
    | some d => exact .inr ⟨d, rfl, rfl⟩
  | notify l =>
    obtain ⟨y, hy, rfl⟩ := map_eq_some_iff.mp hu
    split
    · exact .notified l (mem_of_getElem? hx) (Quiet.setThread t trivial)
    · exact .quiet (Quiet.setThread t trivial)
  | push l d =>
    obtain ⟨y, hy, rfl⟩ := map_eq_some_iff.mp hu
    exact .pushed l d y (mem_of_getElem? hx) hy (Quiet.setThread t trivial)
  | opening l d =>
    obtain ⟨y, hy, rfl⟩ := map_eq_some_iff.mp hu
    cases hopen : C.gcmOpen y.aead d.nonce d.cipher with
    | none => exact .quiet { Quiet.setThread t (x := .done) trivial with }
    | some pt =>
      cases hcb : y.onData with
      | none => exact .quiet { Quiet.setThread t (x := .done) trivial with }
      | some cb => exact .handed l d y.toSession cb pt hx (getElem?_sessions hy) hopen (Quiet.setThread t trivial)
  | cache key d =>
    rw [World.resume] at hu
    split at hu
    · obtain ⟨y, hy, rfl⟩ := map_eq_some_iff.mp hu
      exact moves_cacheLink hy
    · cases hu
      exact .quiet (Quiet.setThread t trivial)
    · cases hu
  | done => cases hu

theorem moves {a : Action η} (hu : w.step C a = some u) : Moves C w a u := by
  cases a with
  | dial h addr destSignPub id eph =>
    cases hu
    exact .opened _ rfl (Quiet.refl _)
  | dialCached h addr destSignPub id eph =>
    rw [step] at hu
    dsimp only at hu
    split at hu <;> cases hu
    · exact .quiet (Quiet.refl w)
    · refine .opened _ rfl { Quiet.refl (w.dial ⟨h, addr, destSignPub, id, eph⟩) with threads := fun x hx => ?_ }
      rcases mem_append.mp hx with hx | hx
      · exact .inl hx
      · exact .inr (mem_singleton.mp hx ▸ trivial)
  | sendRequest d ok =>
    rw [step] at hu
    split at hu
    next c result hd =>
      split at hu
      next hok =>
        cases hu
        subst hok
        exact .requested c (mem_of_getElem? (getElem?_calls hd))
          (Quiet.setDial hd rfl (fun l hl => by simpa [Dial.Gave] using hl) (by simp))
      · cases hu
        exact .quiet (Quiet.setDial hd rfl (fun l hl => by simpa [Dial.Gave] using hl) (by simp))
    · cases hu
  | receive d =>
    rw [step] at hu
    split at hu
    next c l hd =>
      obtain ⟨y, hy, rfl⟩ := map_eq_some_iff.mp hu
      have hdial : Quiet w (w.setDial d ⟨c, none, .leaving (some l)⟩) :=
        Quiet.setDial hd rfl (fun l' hl => by simpa [Dial.Gave] using hl) (by simp)
      exact .quiet (hdial.trans (Quiet.setLink hy rfl rfl))
    · cases hu
  | timeout d =>
    rw [step] at hu
    split at hu
    next c result hd =>
      cases hu
      exact .quiet (Quiet.setDial hd rfl (fun l hl => by simpa [Dial.Gave] using hl) (by simp))
    · cases hu
  | leave d =>
    rw [step] at hu
    split at hu
    next c result l hd =>
      cases hu
      have hdial : Quiet w (w.setDial d ⟨c, result, .returned l⟩) :=
        Quiet.setDial hd rfl (fun l' hl => by simpa [Dial.Gave] using hl) (by simp)
      refine .quiet (hdial.trans (Quiet.setManager c.host rfl fun id d' hd' => ?_))
      by_cases hid : id = c.id
      · rw [hid, GoMap.get?_delete_self] at hd'
        cases hd'
      · rwa [GoMap.get?_delete_ne _ hid] at hd'
    · cases hu
  | deliverRequest h addr req eph ok =>
    rw [step] at hu
    split at hu
    next aead pr hans =>
      split at hu
      next hok =>
        cases hu
        subst hok
        exact .answered aead pr hans
      · cases hu
        exact .quiet (Quiet.refl w)
    · cases hu
      exact .quiet (Quiet.refl w)
  | deliverProof h pr =>
    rw [step] at hu
    split at hu
    next d hd =>
      obtain ⟨x, hx, rfl⟩ := map_eq_some_iff.mp hu
      split
      · next aead hacc => exact .accepted d x.toCall aead hd (getElem?_calls hx) hacc
      · exact .quiet (Quiet.refl w)
    · cases hu
      exact .quiet (Quiet.refl w)
  | deliverData h d =>
    rw [step] at hu
    split at hu
    next l hl =>
      cases hu
      exact .found l hl
    · cases hu
      exact .quiet (Quiet.refl w)
  | resume t =>
    obtain ⟨x, hx, hu⟩ := bind_eq_some_iff.mp hu
    exact moves_resume hx hu
  | onInboundLink h =>
    cases hu
    exact .quiet (Quiet.setManager h rfl fun _ _ hd => hd)
  | onData l cb =>
    rw [step] at hu
    split at hu
    · obtain ⟨x, hx, rfl⟩ := map_eq_some_iff.mp hu
      exact .quiet (Quiet.setLink hx rfl rfl)
    · cases hu
  | send l data ok =>
    rw [step] at hu
    split at hu
    next hheld =>
      obtain ⟨x, hx, rfl⟩ := map_eq_some_iff.mp hu
      refine .sent x (if ok then [⟨x.mgr, x.peerAddr, .data (x.send C data).2⟩] else []) hheld hx ?_ ?_
      · cases ok <;> simp
      · cases ok
        · simp only [Bool.false_eq_true, if_false, append_nil]
          exact Quiet.refl _
        · exact Quiet.refl _
    · cases hu
  | close l =>
    rw [step] at hu
    split at hu
    · obtain ⟨x, hx, rfl⟩ := map_eq_some_iff.mp hu
      exact .closed l x.toSession (getElem?_sessions hx) Quiet.closeLink
    · cases hu

end World
end SyncSwarm.Link
