import Mathlib.Data.Finset.Card
import SyncSwarm.Theorems.Discovery.Shell
import SyncSwarm.Theorems.Discovery.Keys

/-! Whose view the external host is. The node counts every report, whoever sends it and however often. -/

set_option linter.dupNamespace false

namespace SyncSwarm.Discovery
open Lib Protocol List Option GoMap

namespace Discovery
variable {env : Env} {cfg : Config} {w u : Discovery} {a : Action} {as : List Action}
  {capabilities : List String} {now : Int}

/-! ### Counting -/

theorem observed_step (hnext : next env cfg w a = some u) :
    u.observedCounts = tally w.observedCounts (reportOf env a) := by
  by_cases hframe : ∃ addr i pkt nonce, a = .frame addr i pkt nonce
  · obtain ⟨addr, i, pkt, nonce, rfl⟩ := hframe
    cases hnext
    cases hresolve : env.net.resolve addr with
    | none => simp [receive_unresolved hresolve, reportOf, hresolve, tally]
    | some remoteAddr =>
      refine (congrArg Shell.observed (shell_receive hresolve)).trans (congrArg (tally w.observedCounts) ?_)
      rw [signedReport, reportOf, hresolve]
      cases pkt.verify env.sigs <;> rfl
  · obtain ⟨caps, elapsed, hshell, -⟩ :=
      shell_step (fun addr i pkt nonce heq => hframe ⟨addr, i, pkt, nonce, heq⟩) hnext
    have hnone : reportOf env a = none := by
      cases a with
      | frame addr i pkt nonce => exact absurd ⟨addr, i, pkt, nonce, rfl⟩ hframe
      | _ => rfl
    rw [hnone]
    exact congrArg Shell.observed hshell

def countOf (counts : GoMap String Nat) (host : String) : Nat := (counts.get? host).getD 0

theorem countOf_tally (counts : GoMap String Nat) (report : Option Report) (host : String) :
    countOf (tally counts report) host = countOf counts host + report.toList.countP (·.host = host) := by
  cases report with
  | none => rfl
  | some r =>
    by_cases hhost : host = r.host
    · subst hhost
      simp [countOf, tally]
    · have hne : ¬r.host = host := fun h => hhost h.symm
      simp [countOf, tally, get?_set_ne _ _ hhost, hne]

theorem countOf_run (hrun : exec (next env cfg) w as = some u) (host : String) :
    countOf u.observedCounts host = countOf w.observedCounts host + (as.filterMap (reportOf env)).countP
      (·.host = host) := by
  induction as generalizing w with
  | nil =>
    cases hrun
    rfl
  | cons a as ih =>
    obtain ⟨v, hstep, hrest⟩ := exec_cons.mp hrun
    rw [ih hrest, observed_step hstep, countOf_tally, Nat.add_assoc, ← countP_append]
    cases hreport : reportOf env a with
    | none => simp [hreport]
    | some r => simp [hreport]

/-! ### The host with the highest count -/

theorem best_spec (l : List (String × Nat)) (best : String × Nat) :
    let r := l.foldl (fun best e => if best.2 < e.2 then e else best) best
    (r = best ∨ r ∈ l) ∧ best.2 ≤ r.2 ∧ ∀ e ∈ l, e.2 ≤ r.2 := by
  induction l generalizing best with
  | nil => exact ⟨.inl rfl, Nat.le_refl _, nofun⟩
  | cons e l ih =>
    obtain ⟨hmem, hbest, hle⟩ := ih (if best.2 < e.2 then e else best)
    simp only [foldl_cons, mem_cons, forall_eq_or_imp]
    by_cases hlt : best.2 < e.2
    · simp only [if_pos hlt] at hmem hbest hle ⊢
      refine ⟨.inr hmem, ?_, hbest, hle⟩
      omega
    · simp only [if_neg hlt] at hmem hbest hle ⊢
      refine ⟨hmem.imp_right .inr, hbest, ?_, hle⟩
      omega

theorem countOf_le_externalHost (iter : GoMap.Iteration String Nat) (w : Discovery) (host : String) :
    countOf w.observedCounts host ≤ countOf w.observedCounts (w.externalHost iter) := by
  obtain ⟨hmem, -, hle⟩ := best_spec (iter.order w.observedCounts) ("", 0)
  rw [externalHost]
  generalize foldl (fun best e => if best.2 < e.2 then e else best) ("", 0)
    (iter.order w.observedCounts) = r at hmem hle ⊢
  have hr : r.2 ≤ countOf w.observedCounts r.1 := by
    rcases hmem with rfl | hmem
    · exact Nat.zero_le _
    · rw [countOf, mem_entries.mp ((iter.perm _).subset hmem)]
      exact Nat.le_refl _
  refine Nat.le_trans ?_ hr
  cases hget : w.observedCounts.get? host with
  | none => simp [countOf, hget]
  | some n =>
    rw [countOf, hget]
    exact hle (host, n) ((iter.perm _).symm.subset (mem_entries.mpr hget))

/-! ### Peers -/

/-- The report that an action brings, if it answers an open check of its sender. --/
def answered (env : Env) (w : Discovery) (a : Action) : List Report :=
  ((reportOf env a).filter fun r => w.Asked r).toList

/-- How many distinct peers report the host. --/
def voters (reports : List Report) (host : String) : Nat :=
  ((reports.filter (·.host = host)).map Report.peer).toFinset.card

theorem outputs_answered (hasked : Along (next env cfg) (fun w a => ∀ r ∈ reportOf env a, w.Asked r) w as)
    (hrun : exec (next env cfg) w as = some u) :
    outputs (next env cfg) (answered env) w as = as.filterMap (reportOf env) := by
  induction as generalizing w with
  | nil => rfl
  | cons a as ih =>
    obtain ⟨v, hstep, hrest⟩ := exec_cons.mp hrun
    obtain ⟨hfirst, hlater⟩ := hasked
    rw [outputs, hstep, Option.elim_some, ih (hlater v hstep) hrest, answered]
    cases hreport : reportOf env a with
    | none => simp [hreport]
    | some r => simp [hreport, Option.filter, hfirst r hreport]

theorem voters_eq_countP {reports : List Report} (h : (reports.map fun r => (r.peer, r.host)).Nodup) (host : String) :
    voters reports host = reports.countP (·.host = host) := by
  have hpairs : (reports.filter (·.host = host)).map (fun r => (r.peer, r.host)) =
      ((reports.filter (·.host = host)).map Report.peer).map (·, host) := by
    rw [List.map_map]
    refine map_congr_left fun r hr => ?_
    rw [of_decide_eq_true (mem_filter.mp hr).2]
    rfl
  have hsub : ((reports.filter (·.host = host)).map Report.peer).Nodup :=
    .of_map (·, host) (hpairs ▸ (filter_sublist.map _).nodup h)
  rw [voters, toFinset_card_of_nodup hsub, length_map, countP_eq_length_filter]

/-- In every run in which each peer reports a host once at most, and only in its answer to a check, no host is
    reported by more peers than the external host. --/
theorem external_host_majority
    (hasked : Along (next env cfg) (fun w a => ∀ r ∈ reportOf env a, w.Asked r) (new capabilities now) as)
    (honce : ((as.filterMap (reportOf env)).map fun r => (r.peer, r.host)).Nodup)
    (hrun : exec (next env cfg) (new capabilities now) as = some w) (iter : GoMap.Iteration String Nat)
    (host : String) :
    voters (outputs (next env cfg) (answered env) (new capabilities now) as) host ≤
      voters (outputs (next env cfg) (answered env) (new capabilities now) as) (w.externalHost iter) := by
  have hcount : ∀ host, voters (outputs (next env cfg) (answered env) (new capabilities now) as) host =
      countOf w.observedCounts host := by
    intro host
    rw [outputs_answered hasked hrun, voters_eq_countP honce, countOf_run hrun]
    exact (Nat.zero_add _).symm
  rw [hcount, hcount]
  exact countOf_le_externalHost iter w host

end Discovery

namespace Trio

def seenAs (payload : Bytes) : Option DiscoveryPayload :=
  if payload = [1] then some { nodeID := "01010101010101010101010101010101", version := "1.0.0" }
  else if payload = [2] then some { nodeID := "", version := "1.0.0", nonce := 1, observedAddr := "good:1" }
  else if payload = [3] then some { nodeID := "", version := "1.0.0", observedAddr := "evil:1" }
  else none

def outside : Env where
  sigs := { sha256 := FixedBytes.copy 32, publicKey := id, sign := fun _ _ => [], verify := fun _ _ _ => true }
  json := { noJson with discovery := ⟨fun _ => [], seenAs⟩ }
  net :=
    { splitHost := fun addr => if addr = "good:1" then some "good" else if addr = "evil:1" then some "evil" else none
      parseIP := fun _ => none
      resolve := some }
  timeText _ := []
  iter := .inOrder
  pathIter := .inOrder

def heardFrom (key : UInt8) (type : PacketType) (payload : Bytes) : Discovery.Action :=
  .frame "a:1" udp
    { id := .copy 32 payload, type, payload, sourceNode := "01010101010101010101010101010101",
      signerKey := List.replicate 32 key, signature := List.replicate 64 0 } 0

def honest : List Discovery.Action :=
  [heardFrom 1 .discovery [1], .checkLatencies, .measure 0 true, heardFrom 1 .latencyReply [2]]

def outvoted : List Discovery.Action := honest ++ [heardFrom 2 .latencyReply [3], heardFrom 2 .latencyReply [3]]

end Trio

namespace Discovery
open Trio

theorem external_host_majority_one :
    ∃ w, exec (next outside config) (new [] 0) honest = some w ∧ w.externalHost outside.iter = "good" ∧
    ∀ host, voters (outputs (next outside config) (answered outside) (new [] 0) honest) host ≤
      voters (outputs (next outside config) (answered outside) (new [] 0) honest) (w.externalHost outside.iter) := by
  have hrun : (exec (next outside config) (new [] 0) honest).map (externalHost outside.iter) =
      some "good" := by decide +kernel
  obtain ⟨w, hw, hhost⟩ := map_eq_some_iff.mp hrun
  exact ⟨w, hw, hhost, external_host_majority (by decide +kernel) (by decide +kernel) hw outside.iter⟩

/-- One peer that no check has asked outvotes the peer that was asked. --/
theorem external_host_outvoted :
    ∃ w, exec (next outside config) (new [] 0) outvoted = some w ∧ w.externalHost outside.iter = "evil" ∧
    voters (outputs (next outside config) (answered outside) (new [] 0) outvoted) "evil" = 0 ∧
    voters (outputs (next outside config) (answered outside) (new [] 0) outvoted) "good" = 1 := by
  have hrun : (exec (next outside config) (new [] 0) outvoted).map (externalHost outside.iter) =
      some "evil" := by decide +kernel
  obtain ⟨w, hw, hhost⟩ := map_eq_some_iff.mp hrun
  exact ⟨w, hw, hhost, by decide +kernel, by decide +kernel⟩

end Discovery
end SyncSwarm.Discovery
