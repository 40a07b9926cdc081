import SyncSwarm.Discovery.Reachability
import SyncSwarm.Lib.System

/-! What a change of the verdict rests on: results, whoever sends them, and peers that have not answered. -/

namespace SyncSwarm.Discovery
open Lib List Option GoMap

namespace ReachRound
variable {r : ReachRound}

/-- Enough of the peers that were asked report failure, and none reports success. --/
def Refuted (r : ReachRound) : Prop :=
  (∃ peers : List String, peers.Nodup ∧ reachMinResponders ≤ peers.length ∧ ∀ a ∈ peers, a ∈ r.peers ∧
    ⟨a, false⟩ ∈ r.results) ∧
    ∀ a ∈ r.results, a.reachable = false

def Solo (r : ReachRound) : Prop := ∃ peer ∈ r.peers, r.results = [⟨peer, false⟩]

structure Counting (r : ReachRound) : Prop where
  asked : ∀ a ∈ r.results, a.sender ∈ r.peers
  once : (r.results.map (·.sender)).Nodup
  counted : r.responses ≤ r.results.length
  failed : ∀ a ∈ r.results.take r.responses, a.reachable = false
  waiting : r.ch = (r.results.drop r.responses).map (·.reachable)
  undecided : r.reachable = false

structure Counted (r : ReachRound) : Prop where
  success : r.reachable = true → ∃ a ∈ r.results, a.sender ∈ r.peers ∧ a.reachable = true
  refuted : r.reachable = false → reachMinResponders ≤ r.responses → r.Refuted
  solo : r.reachable = false → r.responses < reachMinResponders → r.responses = 1 ∧ r.Solo

theorem Counting.length_le (h : r.Counting) : r.results.length ≤ r.peers.length := by
  have hsub : r.results.map (·.sender) ⊆ r.peers := fun a ha => by
    obtain ⟨result, hresult, rfl⟩ := mem_map.mp ha
    exact h.asked result hresult
  simpa using (subperm_of_subset h.once hsub).length_le

theorem Counting.refuted (h : r.Counting) (hall : ∀ a ∈ r.results, a.reachable = false)
    (hmany : reachMinResponders ≤ r.results.length) : r.Refuted := by
  refine ⟨⟨r.results.map (·.sender), h.once, by rwa [length_map], fun a ha => ?_⟩, hall⟩
  obtain ⟨result, hresult, rfl⟩ := mem_map.mp ha
  have hfailed : (⟨result.sender, false⟩ : DialBack) = result := by rw [← hall result hresult]
  exact ⟨h.asked result hresult, hfailed ▸ hresult⟩

theorem Counting.ended (h : r.Counting) (hpos : 0 < r.responses) (hend : r.peers.length ≤ r.responses) : r.Counted := by
  have hlen : r.responses = r.results.length := Nat.le_antisymm h.counted (Nat.le_trans h.length_le hend)
  have hall := h.failed
  rw [hlen, take_length] at hall
  refine ⟨fun hok => (nomatch h.undecided.symm.trans hok), fun _ hmany => h.refuted hall (hlen ▸ hmany),
    fun _ hfew => ?_⟩
  have hone : r.responses = 1 := Nat.le_antisymm (Nat.le_of_lt_succ hfew) hpos
  obtain ⟨a, ha⟩ := length_eq_one_iff.mp (hlen.symm.trans hone)
  refine ⟨hone, a.sender, h.asked a (ha ▸ mem_singleton_self a), ?_⟩
  rw [ha, ← hall a (ha ▸ mem_singleton_self a)]

section Receive
variable {ok : Bool} {ch : List Bool} (h : r.Counting) (hch : r.ch = ok :: ch)
include h hch

theorem Counting.head :
    ∃ a rest, r.results.drop r.responses = a :: rest ∧ a.reachable = ok ∧ rest.map (·.reachable) = ch := by
  have hwait := h.waiting
  rw [hch] at hwait
  cases hdrop : r.results.drop r.responses with
  | nil =>
    rw [hdrop] at hwait
    cases hwait
  | cons a rest =>
    rw [hdrop, map_cons, cons.injEq] at hwait
    exact ⟨a, rest, rfl, hwait.1.symm, hwait.2.symm⟩

theorem Counting.receive (hok : ok = false) :
    { r with ch, responses := r.responses + 1, reachable := r.reachable || ok }.Counting := by
  obtain ⟨a, rest, hdrop, ha, hrest⟩ := h.head hch
  have hget : r.results[r.responses]? = some a := by rw [← Nat.add_zero r.responses, ← getElem?_drop, hdrop]; rfl
  refine ⟨h.asked, h.once, lt_of_getElem? hget, ?_, ?_, by rw [h.undecided, hok]; rfl⟩
  · intro b hb
    rw [take_add_one, hget, toList_some, mem_append_single] at hb
    rcases hb with hb | rfl
    · exact h.failed b hb
    · exact ha.trans hok
  · rw [← drop_drop, hdrop]
    exact hrest.symm

theorem Counting.success (hok : ok = true) :
    { r with ch, responses := r.responses + 1, reachable := r.reachable || ok }.Counted := by
  obtain ⟨a, rest, hdrop, ha, -⟩ := h.head hch
  have hmem : a ∈ r.results := mem_of_mem_drop (hdrop ▸ mem_cons_self)
  have hdone : (r.reachable || ok) = true := by rw [hok, Bool.or_true]
  exact ⟨fun _ => ⟨a, hmem, h.asked a hmem, ha.trans hok⟩, fun hno => (nomatch hdone.symm.trans hno),
    fun hno => nomatch hdone.symm.trans hno⟩

end Receive

theorem Counting.timeout (h : r.Counting) (hmany : reachMinResponders ≤ r.responses) (hch : r.ch = []) :
    { r with responses := r.peers.length }.Counted := by
  have hdrop : r.results.drop r.responses = [] := map_eq_nil_iff.mp (h.waiting.symm.trans hch)
  have hall := h.failed
  rw [take_of_length_le (drop_eq_nil_iff.mp hdrop)] at hall
  have hresults := Nat.le_trans hmany h.counted
  refine ⟨fun hok => (nomatch h.undecided.symm.trans hok), fun _ _ => h.refuted hall hresults, fun _ hfew => ?_⟩
  exact absurd hfew (Nat.not_lt.mpr (Nat.le_trans hresults h.length_le))

theorem Counting.result (h : r.Counting) {result : DialBack} (hasked : result.sender ∈ r.peers)
    (hnew : result.sender ∉ r.results.map (·.sender)) :
    { r with
      results := r.results ++ [result]
      ch := if r.ch.length < r.peers.length then r.ch ++ [result.reachable] else r.ch }.Counting := by
  have hroom : r.ch.length < r.peers.length := by
    have hsub : result.sender :: r.results.map (·.sender) ⊆ r.peers := cons_subset.mpr ⟨hasked, fun a ha => by
      obtain ⟨b, hb, rfl⟩ := mem_map.mp ha
      exact h.asked b hb⟩
    have hle := (subperm_of_subset (nodup_cons.mpr ⟨hnew, h.once⟩) hsub).length_le
    rw [length_cons, length_map] at hle
    rw [h.waiting, length_map, length_drop]
    omega
  rw [if_pos hroom]
  refine ⟨fun a ha => ?_, ?_, ?_, ?_, ?_, h.undecided⟩
  · rcases mem_append_single.mp ha with ha | rfl
    · exact h.asked a ha
    · exact hasked
  · rw [map_append, map_singleton]
    exact h.once.append (nodup_singleton _) (disjoint_singleton.mpr hnew)
  · exact Nat.le_trans h.counted (by rw [length_append]; exact Nat.le_add_right _ _)
  · rw [take_append_of_le_length h.counted]
    exact h.failed
  · rw [drop_append_of_le_length h.counted, map_append, h.waiting]
    rfl

end ReachRound

namespace Reachability
variable {net : Net} {selfID : String} {s s' : Reachability} {op : Op} {ref : Nat} {r r₀ : ReachRound}

/-- The last `n` rounds that were concluded had one responder each, who reported failure. --/
def Streak (s : Reachability) (n : Nat) : Prop :=
  ∃ before refs, s.concluded = before ++ refs ∧ refs.length = n ∧
    ∀ ref ∈ refs, ∃ r, s.rounds[ref]? = some r ∧ r.ended = true ∧ r.Solo

/-- A result comes from a peer that was asked and has not answered yet; the timer of a round fires when enough of them
    have, and no result waits. --/
def sound (s : Reachability) : Op → Bool
  | .result nonce result => (s.awaiting nonce).all fun r => result.sender ∈ r.peers ∧
    result.sender ∉ r.results.map (·.sender)
  | .timeout ref => s.rounds[ref]?.all fun r => reachMinResponders ≤ r.responses ∧ r.ch = []
  | _ => true

/-- The invariant: results are counted once. --/
structure Inv (s : Reachability) : Prop where
  counting : ∀ (ref : Nat) r, s.rounds[ref]? = some r → r.ended = false → r.Counting
  pending : ∀ nonce ref, s.reachPending.get? nonce = some ref → ∃ r, s.rounds[ref]? = some r ∧
    r.ended = false ∧ r.nonce = nonce
  streak : s.Streak s.soloFailures

theorem Streak.keep {n : Nat} (h : s.Streak n) (hconcluded : s'.concluded = s.concluded)
    (hover : ∀ (ref : Nat) r, s.rounds[ref]? = some r → r.ended = true → s'.rounds[ref]? = some r) : s'.Streak n := by
  obtain ⟨before, refs, heq, hlen, hrefs⟩ := h
  refine ⟨before, refs, hconcluded.trans heq, hlen, fun ref href => ?_⟩
  obtain ⟨r, hr, hdone, hsolo⟩ := hrefs ref href
  exact ⟨r, hover ref r hr hdone, hdone, hsolo⟩

theorem ended_of_set (hr₀ : s.rounds[ref]? = some r₀) (hopen : r₀.ended = false) {i : Nat} {x : ReachRound}
    (hx : s.rounds[i]? = some x) (hover : x.ended = true) : (s.rounds.set ref r)[i]? = some x := by
  have hne : ref ≠ i := by
    rintro rfl
    cases mem_unique hr₀ hx
    cases hopen.symm.trans hover
  rwa [getElem?_set_ne hne]

theorem streak_zero (s : Reachability) : s.Streak 0 := ⟨s.concluded, [], (append_nil _).symm, rfl, nofun⟩

/-! ### A step -/

theorem rounds_set (hr₀ : s.rounds[ref]? = some r₀) {i : Nat} {x : ReachRound}
    (hx : (s.rounds.set ref r)[i]? = some x) :
    i = ref ∧ x = r ∨ i ≠ ref ∧ s.rounds[i]? = some x := by
  by_cases hi : i = ref
  · subst hi
    rw [getElem?_set_self (lt_of_getElem? hr₀)] at hx
    exact .inl ⟨rfl, (Option.some.inj hx).symm⟩
  · rw [getElem?_set_ne (Ne.symm hi)] at hx
    exact .inr ⟨hi, hx⟩

section Turn
variable (h : s.Inv) (hr₀ : s.rounds[ref]? = some r₀) (hopen : r₀.ended = false) (hnonce : r.nonce = r₀.nonce)
include h hr₀ hopen hnonce

omit hopen in
theorem Inv.close {t : Reachability} (hrounds : t.rounds = s.rounds.set ref { r with ended := true })
    (hpending : t.reachPending = s.reachPending.delete r.nonce) (hstreak : t.Streak t.soloFailures) : t.Inv := by
  refine ⟨fun i x hx hgo => ?_, fun nonce i hi => ?_, hstreak⟩
  · rw [hrounds] at hx
    rcases rounds_set hr₀ hx with ⟨-, rfl⟩ | ⟨-, hx⟩
    · cases hgo
    · exact h.counting i x hx hgo
  · rw [hpending] at hi
    by_cases hne : nonce = r.nonce
    · rw [hne, get?_delete_self] at hi
      cases hi
    · rw [get?_delete_ne _ hne] at hi
      obtain ⟨x, hx, hgo, hx'⟩ := h.pending nonce i hi
      have hi : ref ≠ i := by
        rintro rfl
        cases mem_unique hr₀ hx
        exact hne (hx'.symm.trans hnonce.symm)
      exact ⟨x, by rwa [hrounds, getElem?_set_ne hi], hgo, hx'⟩

theorem Inv.turn (hover : r.ended = false) (hgo : r.reachable = false → r.responses < r.peers.length → r.Counting)
    (hend : r.reachable = true ∨ r.peers.length ≤ r.responses → r.Counted) : (s.turn ref r).Inv := by
  rw [Reachability.turn]
  split
  next hdone =>
    rw [Bool.or_eq_true, decide_eq_true_iff] at hdone
    have hcount := hend hdone
    refine h.close hr₀ hnonce rfl rfl ?_
    by_cases hlone : r.reachable = false ∧ r.responses < reachMinResponders
    · obtain ⟨hone, hsolo⟩ := hcount.solo hlone.1 hlone.2
      obtain ⟨before, refs, heq, hlen, hrefs⟩ := h.streak
      have hfailures : (s.concludeRound r.responses r.reachable).soloFailures = s.soloFailures + 1 := by
        simp only [concludeRound, setReachable, hlone.1, hone, reachMinResponders, Bool.false_eq_true, if_false,
          Nat.reduceLeDiff, Nat.one_ne_zero]
        split <;> rfl
      refine ⟨before,
        refs ++ [ref], by rw [← append_assoc, ← heq], by rw [length_append, hlen]; exact hfailures.symm, fun i hi => ?_⟩
      rcases mem_append_single.mp hi with hi | rfl
      · obtain ⟨x, hx, hx', hxsolo⟩ := hrefs i hi
        exact ⟨x, ended_of_set hr₀ hopen hx hx', hx', hxsolo⟩
      · exact ⟨_, getElem?_set_self (lt_of_getElem? hr₀), rfl, hsolo⟩
    · have hfailures : (s.concludeRound r.responses r.reachable).soloFailures = 0 := by
        cases hok : r.reachable with
        | true => rfl
        | false =>
          simp only [concludeRound, Bool.false_eq_true, if_false,
            if_pos (Nat.not_lt.mp fun hlt => hlone ⟨hok, hlt⟩), setReachable]
      exact hfailures ▸ streak_zero _
  next hdone =>
    rw [Bool.or_eq_true, decide_eq_true_iff, not_or, Bool.not_eq_true, Nat.not_le] at hdone
    refine ⟨fun i x hx hxgo => ?_, fun nonce i hi => ?_, h.streak.keep rfl fun i x hx hx' =>
      ended_of_set hr₀ hopen hx hx'⟩
    · rcases rounds_set hr₀ hx with ⟨-, rfl⟩ | ⟨-, hx⟩
      · exact hgo hdone.1 hdone.2
      · exact h.counting i x hx hxgo
    · obtain ⟨x, hx, hxgo, hx'⟩ := h.pending nonce i hi
      by_cases hi : ref = i
      · subst hi
        cases mem_unique hr₀ hx
        exact ⟨r, getElem?_set_self (lt_of_getElem? hr₀), hover, hnonce.trans hx'⟩
      · exact ⟨x, by rwa [getElem?_set_ne hi], hxgo, hx'⟩

end Turn

/-- A round has just ended, and it or the last ones with it speak for the verdict. --/
def Evidence (s s' : Reachability) : Prop :=
  ∃ ref r, s'.concluded = s.concluded ++ [ref] ∧ s'.rounds[ref]? = some r ∧
    (s'.verdict = some false ∧ (r.Refuted ∨ s'.Streak reachSoloRounds) ∨
      s'.verdict = some true ∧ ∃ a ∈ r.results, a.sender ∈ r.peers ∧ a.reachable = true)

theorem Streak.last {n m : Nat} (h : s.Streak n) (hm : m ≤ n) : s.Streak m := by
  obtain ⟨before, refs, heq, hlen, hrefs⟩ := h
  refine ⟨before ++ refs.take (n - m), refs.drop (n - m), by rw [heq, append_assoc, take_append_drop], ?_,
    fun ref href => hrefs ref (mem_of_mem_drop href)⟩
  rw [length_drop, hlen]
  omega

theorem turn_verdict (hr₀ : s.rounds[ref]? = some r₀) (hinv : (s.turn ref r).Inv)
    (hend : r.reachable = true ∨ r.peers.length ≤ r.responses → r.Counted)
    (hchange : (s.turn ref r).verdict ≠ s.verdict) :
    Evidence s (s.turn ref r) := by
  have hstreak := hinv.streak
  revert hchange hstreak
  rw [Reachability.turn]
  split
  next hdone =>
    rw [Bool.or_eq_true, decide_eq_true_iff] at hdone
    have hcount := hend hdone
    intro hchange hstreak
    refine ⟨ref, _, rfl, getElem?_set_self (lt_of_getElem? hr₀), ?_⟩
    cases hok : r.reachable with
    | true => exact .inr ⟨by simp [verdict, concludeRound, setReachable], hcount.success hok⟩
    | false =>
      rcases Nat.lt_or_ge r.responses reachMinResponders with hfew | hmany
      · obtain ⟨hone, -⟩ := hcount.solo hok hfew
        simp only [verdict, concludeRound, hok, hone, reachMinResponders, Bool.false_eq_true, if_false,
          Nat.reduceLeDiff,
          Nat.one_ne_zero, setReachable] at hchange hstreak ⊢
        split at hchange
        · next hlong =>
          rw [if_pos hlong] at hstreak ⊢
          exact .inl ⟨rfl, .inr (hstreak.last hlong)⟩
        · exact absurd rfl hchange
      · exact .inl ⟨by simp [verdict, concludeRound, setReachable, hmany], .inl (hcount.refuted hok hmany)⟩
  · exact fun hchange => absurd rfl hchange

theorem open_of_filter (hr : (s.rounds[ref]?.filter (!·.ended)) = some r) :
    s.rounds[ref]? = some r ∧ r.ended = false := by
  obtain ⟨hr, hopen⟩ := filter_eq_some_iff.mp hr
  exact ⟨hr, Bool.eq_false_iff.mpr (by simpa using hopen)⟩

theorem step_inv (h : s.Inv) (hsound : s.sound op) (hstep : step net selfID s op = some s') :
    s'.Inv ∧ (s'.verdict ≠ s.verdict → Evidence s s') := by
  cases op with
  | check nodes =>
    cases hstep
    rw [check]
    split
    · exact ⟨h, fun hchange => absurd rfl hchange⟩
    refine ⟨⟨fun i x hx hgo => ?_, fun nonce i hi => ?_, h.streak.keep rfl fun i x hx _ => ?_⟩, fun hchange =>
      absurd rfl hchange⟩
    · rcases getElem?_append_single hx with hx | ⟨-, rfl⟩
      · exact h.counting i x hx hgo
      · exact ⟨by simp, nodup_nil, Nat.le_refl _, by simp, rfl, rfl⟩
    · rw [get?_set] at hi
      split at hi
      · next heq =>
        cases hi
        exact ⟨_, getElem?_concat_length, rfl, heq.symm⟩
      · obtain ⟨x, hx, hrest⟩ := h.pending nonce i hi
        exact ⟨x, by rwa [getElem?_append_left (lt_of_getElem? hx)], hrest⟩
    · rwa [getElem?_append_left (lt_of_getElem? hx)]
  | draw =>
    cases hstep
    exact ⟨⟨h.counting, h.pending, h.streak⟩, fun hchange => absurd rfl hchange⟩
  | result nonce result =>
    cases hstep
    rw [sound, awaiting] at hsound
    rw [handleReachabilityResult]
    split
    · exact ⟨h, fun hchange => absurd rfl hchange⟩
    next ref href =>
    obtain ⟨r₀, hr₀, hopen, hnonce⟩ := h.pending nonce ref href
    rw [href, bind_some, hr₀, all_some, decide_eq_true_iff] at hsound
    rw [modify_eq_set_getElem?, hr₀, Option.map_eq_map, map_some, getD_some]
    refine ⟨⟨fun i x hx hgo => ?_, fun n i hi => ?_, h.streak.keep rfl fun i x hx hx' => ended_of_set hr₀ hopen hx hx'⟩,
      fun hchange => absurd rfl hchange⟩
    · rcases rounds_set hr₀ hx with ⟨-, rfl⟩ | ⟨-, hx⟩
      · exact (h.counting ref r₀ hr₀ hopen).result hsound.1 hsound.2
      · exact h.counting i x hx hgo
    · obtain ⟨x, hx, hxgo, hx'⟩ := h.pending n i hi
      by_cases hi : ref = i
      · subst hi
        cases mem_unique hr₀ hx
        exact ⟨_, getElem?_set_self (lt_of_getElem? hr₀), hopen, hx'⟩
      · exact ⟨x, by rwa [getElem?_set_ne hi], hxgo, hx'⟩
  | receive ref =>
    obtain ⟨r₀, hfound, hstep⟩ := bind_eq_some_iff.mp hstep
    obtain ⟨hr₀, hopen⟩ := open_of_filter hfound
    have hcounting := h.counting ref r₀ hr₀ hopen
    split at hstep
    · cases hstep
    next ok ch hch =>
    cases hstep
    have hend : (r₀.reachable || ok) = true ∨ r₀.peers.length ≤ r₀.responses + 1 →
        { r₀ with ch, responses := r₀.responses + 1, reachable := r₀.reachable || ok }.Counted := by
      intro hend
      cases hok : ok with
      | true => exact hok ▸ hcounting.success hch hok
      | false =>
        have hcounting' := hcounting.receive hch hok
        rw [hok, hcounting.undecided] at hend
        exact hok ▸ hcounting'.ended (Nat.succ_pos _) (hend.resolve_left (by simp))
    have hinv :=
      h.turn (r := { r₀ with ch, responses := r₀.responses + 1, reachable := r₀.reachable || ok }) hr₀ hopen rfl hopen
      (fun hno _ => hcounting.receive hch (Bool.or_eq_false_iff.mp hno).2) hend
    exact ⟨hinv, turn_verdict hr₀ hinv hend⟩
  | timeout ref =>
    obtain ⟨r₀, hfound, rfl⟩ := map_eq_some_iff.mp hstep
    obtain ⟨hr₀, hopen⟩ := open_of_filter hfound
    rw [sound, hr₀, all_some, decide_eq_true_iff] at hsound
    have hcount := (h.counting ref r₀ hr₀ hopen).timeout hsound.1 hsound.2
    have hinv :=
      h.turn (r := { r₀ with responses := r₀.peers.length }) hr₀ hopen rfl hopen
        (fun _ hlt => absurd hlt (Nat.lt_irrefl _)) fun _ => hcount
    exact ⟨hinv, turn_verdict hr₀ hinv fun _ => hcount⟩
  | stop ref =>
    obtain ⟨r₀, hfound, rfl⟩ := map_eq_some_iff.mp hstep
    obtain ⟨hr₀, hopen⟩ := open_of_filter hfound
    refine ⟨h.close hr₀ rfl rfl rfl ?_, fun hchange => absurd rfl hchange⟩
    exact h.streak.keep rfl fun i x hx hx' => ended_of_set hr₀ hopen hx hx'

theorem inv_new (port : UInt16) : (new port).Inv :=
  ⟨nofun, fun nonce _ hi => (nomatch (get?_empty nonce).symm.trans hi), streak_zero _⟩

/-- In a run whose steps are all sound, a step changes the verdict only with the evidence of the
    round that it concludes. --/
theorem verdict_on_evidence {port : UInt16} {ops : List Op} (hrun : exec (step net selfID) (.new port) ops = some s)
    (hsound : Along (step net selfID) (fun s op => s.sound op) (.new port) ops) (hop : s.sound op)
    (hstep : step net selfID s op = some s') (hchange : s'.verdict ≠ s.verdict) : Evidence s s' :=
  (step_inv (exec_keeps_along (fun _ _ _ hop h hstep => (step_inv h hop hstep).1) (inv_new port) hsound hrun) hop
    hstep).2 hchange

/-! ### Rounds -/

namespace Sample

def direct : Net := { splitHost := some, parseIP := fun _ => none, resolve := some }

def peer (id : String) : Node :=
  { id, address := id, lastSeen := 0, active := true, pubKey := [], signKey := [], port := 1, capabilities := [],
    relayIDs := [], mlkemPub := [] }

def asked : List Op := [.check [peer "a", peer "b"]]

end Sample

open Sample in
theorem verdict_on_evidence_refuted : ∃ s s', exec (step direct "self") (.new 1)
      (asked ++ [.result 1 ⟨"b", false⟩, .result 1 ⟨"a", false⟩, .receive 0]) = some s ∧
    step direct "self" s (.receive 0) = some s' ∧ s'.verdict = some false ∧ Evidence s s' := by
  obtain ⟨s, hs, hop⟩ := map_eq_some_iff.mp (show (exec (step direct "self") (.new 1)
    (asked ++ [.result 1 ⟨"b", false⟩, .result 1 ⟨"a", false⟩, .receive 0])).map
      (fun s => (s.sound (.receive 0), s.verdict,
      (step direct "self" s (.receive 0)).map (·.verdict))) = some (true, none, some (some false)) by decide +kernel)
  obtain ⟨hsound, hrest⟩ := Prod.mk.inj hop
  obtain ⟨hverdict, hnext⟩ := Prod.mk.inj hrest
  obtain ⟨s', hs', hunreachable⟩ := map_eq_some_iff.mp hnext
  exact ⟨s, s', hs, hs', hunreachable, verdict_on_evidence hs (by decide +kernel) hsound hs'
    (by rw [hunreachable, hverdict]; nofun)⟩

open Sample in
/-- Nobody answers and the timer makes the node unreachable; one of two peers answers twice and makes it unreachable; a
    stranger makes it reachable. --/
theorem verdict_without_evidence :
    (exec (step direct "self") (.new 1) (asked ++ [.timeout 0])).map (fun s => (s.verdict, s.rounds.map (·.results))) =
      some (some false, [[]]) ∧
    (exec (step direct "self") (.new 1)
      (asked ++ [.result 1 ⟨"a", false⟩, .result 1 ⟨"a", false⟩, .receive 0, .receive 0])).map
      (fun s => (s.verdict, s.rounds.map (·.results))) = some (some false, [[⟨"a", false⟩, ⟨"a", false⟩]]) ∧
    (exec (step direct "self") (.new 1) (asked ++ [.result 1 ⟨"stranger", true⟩, .receive 0])).map
      (fun s => (s.verdict, s.rounds.map fun r => (r.peers, r.results))) =
        some (some true, [(["a", "b"], [⟨"stranger", true⟩])]) := by
  decide +kernel

end Reachability
end SyncSwarm.Discovery
