import SyncSwarm.Theorems.Discovery.Shell

/-! The windows in which a key is known again. What a node does only with a key that is new to it, it does at times that
    are a window apart. -/

set_option linter.dupNamespace false

namespace SyncSwarm.Discovery
open Lib Protocol List GoMap

namespace DedupSet
variable {d : DedupSet} {now now' t : Int} {key k : String}

def Recalls (d : DedupSet) (now : Int) (key : String) (t : Int) : Prop :=
  d.get? key = some t ∨ announceDedupTTL ≤ now - t

theorem observe_seen (h : (d.observe now key).1 = true) : d.observe now key = (true, d) := by
  rw [observe] at h ⊢
  split at h
  · next hseen => rw [if_pos hseen]
  · cases h

theorem observe_new (h : (d.observe now key).1 = false) :
    (∀ t, d.get? key = some t → announceDedupTTL ≤ now - t) ∧
      ((d.observe now key).2 = d.set key now ∨
        (d.observe now key).2 = (d.filter fun _ t => now - t < announceDedupTTL).set key now) := by
  rw [observe] at h ⊢
  split at h
  · cases h
  next hseen =>
  refine ⟨fun t ht => ?_, ?_⟩
  · rw [ht, Option.any_some, decide_eq_true_eq] at hseen
    exact Int.not_lt.mp hseen
  · rw [if_neg hseen]
    by_cases hlen : 8192 < d.len
    · exact .inr (by simp only [if_pos hlen])
    · exact .inl (by simp only [if_neg hlen])

theorem Recalls.later (h : d.Recalls now key t) (hle : now ≤ now') : d.Recalls now' key t :=
  h.imp_right fun hover => Int.le_trans hover (Int.sub_le_sub_right hle t)

theorem Recalls.over (h : d.Recalls now key t) (hnew : (d.observe now key).1 = false) : announceDedupTTL ≤ now - t :=
  h.elim ((observe_new hnew).1 t) id

theorem recalls_observe (hnew : (d.observe now key).1 = false) : (d.observe now key).2.Recalls now key now := by
  refine .inl ?_
  rcases (observe_new hnew).2 with heq | heq
  · rw [heq, get?_set, if_pos rfl]
  · rw [heq, get?_set, if_pos rfl]

theorem Recalls.observe (h : d.Recalls now key t) (k : String) : (d.observe now k).2.Recalls now key t := by
  cases hseen : (d.observe now k).1 with
  | true =>
    rw [observe_seen hseen]
    exact h
  | false =>
    by_cases hover : announceDedupTTL ≤ now - t
    · exact .inr hover
    have hget : d.get? key = some t := h.resolve_right hover
    have hne : key ≠ k := by
      rintro rfl
      exact hover (h.over hseen)
    refine .inl ?_
    rcases (observe_new hseen).2 with heq | heq
    · rw [heq, get?_set, if_neg hne, hget]
    · rw [heq, get?_set, if_neg hne, get?_filter, hget]
      exact Option.filter_some_pos (decide_eq_true (Int.not_le.mp hover))

theorem Recalls.after (h : d.Recalls now key t) (k : Option String) : (d.after now k).Recalls now key t := by
  cases k with
  | none => exact h
  | some k => exact h.observe k

end DedupSet

namespace Discovery
variable {env : Env} {cfg : Config} {w u : Discovery} {a : Action} {as : List Action}

def floodKeyOf (env : Env) (cfg : Config) : Action → Option String
  | .frame addr _ pkt _ => if (env.net.resolve addr).isSome then signedKey env cfg pkt else none
  | _ => none

def routedKeyOf (env : Env) : Action → Option String
  | .frame addr _ pkt _ => if (env.net.resolve addr).isSome then routedKey pkt else none
  | _ => none

theorem now_step (hnext : next env cfg w a = some u) : w.now ≤ u.now := by
  rcases frame_or a with ⟨addr, srcIface, pkt, nonce, rfl⟩ | hframe
  · obtain rfl : (w.receive env cfg addr srcIface pkt nonce).1 = u := Option.some.inj hnext
    cases hresolve : env.net.resolve addr with
    | none => exact Int.le_of_eq (by rw [receive_unresolved hresolve])
    | some remoteAddr => exact Int.le_of_eq (congrArg Shell.now (shell_receive hresolve)).symm
  · obtain ⟨capabilities, elapsed, hshell, -⟩ := shell_step hframe hnext
    have hnow : u.now = w.now + elapsed := congrArg Shell.now hshell
    omega

theorem keys_of_not_frame (h : ∀ addr i pkt nonce, a ≠ .frame addr i pkt nonce) :
    floodKeyOf env cfg a = none ∧ routedKeyOf env a = none := by
  cases a with
  | frame addr i pkt nonce => exact absurd rfl (h addr i pkt nonce)
  | _ => exact ⟨rfl, rfl⟩

theorem seen_step (hnext : next env cfg w a = some u) :
    u.seenAnn = w.seenAnn.after w.now (floodKeyOf env cfg a) ∧
      u.routedSeen = w.routedSeen.after w.now (routedKeyOf env a) := by
  rcases frame_or a with ⟨addr, srcIface, pkt, nonce, rfl⟩ | hframe
  · obtain rfl : (w.receive env cfg addr srcIface pkt nonce).1 = u := Option.some.inj hnext
    rw [floodKeyOf, routedKeyOf]
    cases hresolve : env.net.resolve addr with
    | none =>
      rw [receive_unresolved hresolve]
      exact ⟨rfl, rfl⟩
    | some remoteAddr =>
      have hshell := @shell_receive env cfg w addr remoteAddr srcIface pkt nonce hresolve
      exact ⟨congrArg Shell.seenAnn hshell, congrArg Shell.routedSeen hshell⟩
  · obtain ⟨capabilities, elapsed, hshell, -⟩ := shell_step hframe hnext
    obtain ⟨hflood, hrouted⟩ := @keys_of_not_frame env cfg a hframe
    rw [hflood, hrouted]
    exact ⟨congrArg Shell.seenAnn hshell, congrArg Shell.routedSeen hshell⟩

/-- Any two of the times are as far apart as an announce is remembered. --/
def Apart (times : List Int) : Prop := times.Pairwise fun t t' => announceDedupTTL ≤ t' - t

theorem apart_of_new (key : String) {seenOf : Discovery → DedupSet} {keyOf : Action → Option String}
    {event : Discovery → Action → Bool}
    (hstep : ∀ w a u, next env cfg w a = some u → seenOf u = (seenOf w).after w.now (keyOf a))
    (hevent : ∀ w a, event w a = true → keyOf a = some key ∧ ((seenOf w).observe w.now key).1 = false)
    (hrun : exec (next env cfg) w as = some u) :
    Apart (outputs (next env cfg) (fun w a => if event w a = true then [w.now] else []) w as) := by
  -- The set recalls every time at which it happened.
  let P : Discovery → List Int → Prop := fun w times => Apart times ∧ ∀ t ∈ times, (seenOf w).Recalls w.now key t
  suffices h : P u (outputs (next env cfg) (fun w a => if event w a = true then [w.now] else []) w as) from h.1
  refine outputs_keep_along (C := fun _ _ => True) (P := P) (l := []) ?_ ⟨List.Pairwise.nil, nofun⟩
    (Along.of_forall fun _ _ _ => trivial) hrun
  rintro w a u times - ⟨hapart, hrecalls⟩ hnext
  have hafter : ∀ t, (seenOf w).Recalls w.now key t → (seenOf u).Recalls u.now key t := by
    intro t ht
    rw [hstep w a u hnext]
    exact (ht.after (keyOf a)).later (now_step hnext)
  by_cases hhappens : event w a = true
  · obtain ⟨hkey, hnew⟩ := hevent w a hhappens
    rw [if_pos hhappens]
    refine ⟨pairwise_append.mpr ⟨hapart, pairwise_singleton _ _, ?_⟩, ?_⟩
    · intro t ht t' ht'
      rw [mem_singleton.mp ht']
      exact (hrecalls t ht).over hnew
    · intro t ht
      rcases mem_append.mp ht with ht | ht
      · exact hafter t (hrecalls t ht)
      · rw [mem_singleton.mp ht, hstep w a u hnext, hkey]
        exact (DedupSet.recalls_observe hnew).later (now_step hnext)
  · rw [if_neg hhappens, append_nil]
    exact ⟨hapart, fun t ht => hafter t (hrecalls t ht)⟩

end Discovery
end SyncSwarm.Discovery
