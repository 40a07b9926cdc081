import SyncSwarm.Theorems.Send.FailClosed

/-! A stream and a message to the same destination: each send decides for itself how to go out. -/

namespace SyncSwarm.Transfer
open Lib Protocol Fragment Routing List
open Discovery (Node)

/-- What becomes of a transfer. --/
inductive Route where
  | unreachable
  | noAnonymousRoute
  | forwarded
  | direct
  /-- There is no route, and a direct send would give the sender away; `SendDataTracked` does not tell. -/
  | unsent
  deriving DecidableEq

namespace Sender
variable {s : Sender} {m : Moment} {nodes : List Node} {dest : Node} {env : Surroundings} {destNode : String}
  {id id' : TransferID} {sc sc' : Scheme} {ackToken ackToken' : Bytes}

/-- `BuildPathTiered` finds relays for a path. --/
def ForwardCtx.plans (fc : ForwardCtx) : Bool := (Routing.candidates fc.destPeer fc.relays fc.hops).toOption.isSome

/-- How `SendDataTracked` decides. --/
def dataRoute (s : Sender) (env : Surroundings) (id : TransferID) (destNode : String) (sc : Scheme) (ackToken : Bytes) :
    Route :=
  let nodes := env.candidates destNode
  if (env.lookup.resolveDest destNode).length = 0 then .unreachable
  else
    match byID nodes destNode with
    | none => .unreachable
    | some dest =>
      if s.noRoute env destNode nodes then .noAnonymousRoute
      else if s.wantForward ∧ s.nodePriv.isSome ∧ 0 < dest.pubKey.length then
        if (s.newForwardCtx (env.attempts 0) dest nodes id sc ackToken).toOption.any (·.plans) then .forwarded
        else if s.failClosed then .unsent
        else .direct
      else .direct

/-- How `SendStream` decides. --/
def streamRoute (s : Sender) (env : StreamSurroundings) (id : TransferID) (destNode : String) (sc : Scheme)
    (ackToken : Bytes) : Route :=
  let nodes := env.lookup.resolveDest destNode
  match nodes.find? (·.id = destNode) with
  | none => .unreachable
  | some dest =>
    if s.wantForward ∧ s.nodePriv.isSome ∧ 0 < dest.pubKey.length ∧
        (s.newForwardCtx env.attempt dest nodes id sc ackToken).toOption.any
          (fun fc => 0 < fc.relays.length) then .forwarded
    else if s.failClosed then .noAnonymousRoute
    else .direct

/-! ### What follows from a decision -/

theorem onion_error {fc : ForwardCtx} (hplans : fc.plans = false) (piece : Fragment) (inner : Bytes) (copyIdx : Nat) :
    ∃ e, fc.onion s m piece inner copyIdx = .error e := by
  rw [ForwardCtx.onion, ForwardCtx.path, buildPathTiered]
  cases hc : Routing.candidates fc.destPeer fc.relays fc.hops with
  | error e => exact ⟨e, rfl⟩
  | ok _ => simp [ForwardCtx.plans, hc, Except.toOption] at hplans

theorem sendForwarded_unplanned {frags : List Fragment} (hne : frags ≠ [])
    (h : (s.newForwardCtx m dest nodes id sc ackToken).toOption.any (·.plans) = false) (answers : Nat → Bool) :
    ∃ e, (s.sendForwarded m dest nodes id frags sc ackToken).run answers = ⟨.error e, answers, []⟩ := by
  rw [sendForwarded]
  cases hfc : s.newForwardCtx m dest nodes id sc ackToken with
  | error e => exact ⟨e, rfl⟩
  | ok fc =>
    rw [hfc] at h
    obtain ⟨frag, rest, rfl⟩ := exists_cons_of_ne_nil hne
    obtain ⟨piece, pieces, hpieces⟩ := exists_cons_of_ne_nil (fragmentPieces_ne_nil frag s.subChunkSize)
    obtain ⟨n, hn⟩ :=
      Nat.exists_eq_succ_of_ne_zero (Nat.pos_iff_ne_zero.mp (Int.lt_toNat.mpr (newForwardCtx_ok hfc).2.2.paths_pos))
    obtain ⟨e, he⟩ := onion_error (s := s) (m := m) h piece (fc.inner s m piece) 0
    refine ⟨e, ?_⟩
    simp only [Tries.each, ForwardCtx.sendFragment, hpieces, ForwardCtx.sendPiece, hn, range_succ_eq_map,
      ForwardCtx.sendCopies, he]
    rfl

/-- A message goes out as decided. --/
theorem emittedOnce_route {data : Bytes} {isVariable : Bool} {job : Job}
    (hjob : s.prepare env id data destNode isVariable = .ok job) (hper : s.usePerHop = false) (hne : destNode ≠ "")
    (hfrags : job.frags ≠ []) :
    (s.dataRoute env job.id destNode job.sc job.ackToken = .direct ∧
      s.emittedOnce (env.attempts 0) job = ((s.sendDirect job).run (env.attempts 0).answers).done) ∨
    (s.dataRoute env job.id destNode job.sc job.ackToken = .unsent ∧ s.emittedOnce (env.attempts 0) job = []) ∨
    s.dataRoute env job.id destNode job.sc job.ackToken = .forwarded := by
  obtain ⟨-, rfl, hnodes, hactive, hknown, hroute, -, -⟩ := prepare_ok hjob
  obtain ⟨dest, hdest⟩ := Option.isSome_iff_exists.mp (hknown hne)
  rw [emittedOnce, sendOnce, if_neg (by simp [hper]), sendBeyondRouting, dataRoute, if_neg hactive, ← hnodes, hdest]
  simp only [hroute, Bool.false_eq_true, if_false]
  by_cases hforward : s.wantForward ∧ s.nodePriv.isSome ∧ 0 < dest.pubKey.length
  · rw [if_pos hforward, if_pos (show job.destNode ≠ "" ∧ _ from ⟨hne, hforward⟩)]
    by_cases hplans :
      (s.newForwardCtx (env.attempts 0) dest job.nodes job.id job.sc job.ackToken).toOption.any (·.plans)
    · exact .inr (.inr (if_pos hplans))
    · obtain ⟨e, he⟩ := sendForwarded_unplanned hfrags (Bool.eq_false_iff.mpr hplans) (env.attempts 0).answers
      rw [if_neg hplans]
      by_cases hclosed : s.failClosed
      · exact .inr (.inl ⟨if_pos hclosed, by simp [bind, he, hclosed, pure]⟩)
      · exact .inl ⟨if_neg hclosed, by simp [bind, he, hclosed]⟩
  · rw [if_neg hforward, if_neg fun h => hforward h.2]
    exact .inl ⟨rfl, rfl⟩

/-- A stream goes out as decided. --/
theorem streamOnce_route {env : StreamSurroundings} {frags : List Fragment}
    (hdest : (env.lookup.resolveDest destNode).find? (·.id = destNode) = some dest) :
    (s.streamRoute env id destNode sc ackToken = .direct ∧
      s.streamOnce env.attempt dest (env.lookup.resolveDest destNode) id frags sc ackToken =
        do return (← s.streamDirect dest id sc frags).mapError fun e => ⟨e, none⟩) ∨
    (s.streamRoute env id destNode sc ackToken = .noAnonymousRoute ∧
      ∃ e : SendError, e.wraps = some .noAnonymousRoute ∧
        s.streamOnce env.attempt dest (env.lookup.resolveDest destNode) id frags sc ackToken = pure (.error e)) ∨
    s.streamRoute env id destNode sc ackToken = .forwarded := by
  simp only [streamRoute, hdest, streamOnce]
  by_cases hforward : s.wantForward ∧ s.nodePriv.isSome ∧ 0 < dest.pubKey.length ∧
    (s.newForwardCtx env.attempt dest (env.lookup.resolveDest destNode) id sc ackToken).toOption.any fun fc => 0 <
      fc.relays.length
  · exact .inr (.inr (if_pos hforward))
  · have hroute : (if s.wantForward ∧ s.nodePriv.isSome ∧ 0 < dest.pubKey.length then
          (s.newForwardCtx env.attempt dest (env.lookup.resolveDest destNode) id sc ackToken).toOption.filter fun fc =>
            0 < fc.relays.length
        else none) = none := by
      refine ite_eq_right_iff.mpr fun hkeys => Option.filter_eq_none_iff.mpr fun fc hfc hrelays => hforward ?_
      exact ⟨hkeys.1, hkeys.2.1, hkeys.2.2, by rw [hfc]; exact hrelays⟩
    rw [if_neg hforward, hroute]
    by_cases hclosed : s.failClosed
    · exact .inr (.inl ⟨if_pos hclosed, _, rfl, if_pos hclosed⟩)
    · exact .inl ⟨if_neg hclosed, if_neg hclosed⟩

/-! ### The two decisions -/

/-- No route with relays: without a key of the destination, without relays, or without the hops that are to be. --/
def Blocked (s : Sender) (dest : Node) (relays : List Peer) : Prop :=
  dest.pubKey.length = 0 ∨ relays.length = 0 ∨ s.hopsFor relays (s.peerDialAddr dest) ≤ 0

/-- One of the relays with which the destination has reserved is there, if it has reserved with any. --/
def Enters (dest : Node) (relays : List Peer) : Prop :=
  dest.relayIDs.length = 0 ∨ (pickReservationRelay relays dest.relayIDs).isSome

theorem any_newForwardCtx (m : Moment) (dest : Node) (nodes : List Node) (id : TransferID) (sc : Scheme)
    (ackToken : Bytes) :
    (s.newForwardCtx m dest nodes id sc ackToken).toOption.any (fun fc => 0 < fc.relays.length) ↔
      s.nodePriv.isSome ∧ ¬s.Blocked dest (s.relayPeers m.excommunicated nodes dest.id) ∧
        Enters dest (s.relayPeers m.excommunicated nodes dest.id) := by
  have hnone : ∀ {α : Type} (o : Option α), o.isNone = !o.isSome := fun o => by simp
  simp only [newForwardCtx, Blocked, Enters, hnone]
  generalize s.relayPeers m.excommunicated nodes dest.id = relays
  split
  · grind [Except.toOption]
  · split
    · grind [Except.toOption]
    · split <;> grind [Except.toOption]

theorem plans_eq (hactive : ∀ n ∈ nodes, n.active) (hne : dest.id ≠ "") (m : Moment) (id : TransferID) (sc : Scheme)
    (ackToken : Bytes) (hkey : 0 < dest.pubKey.length) :
    (s.newForwardCtx m dest nodes id sc ackToken).toOption.any (·.plans) =
      (s.newForwardCtx m dest nodes id sc ackToken).toOption.any fun fc => 0 < fc.relays.length := by
  cases hfc : s.newForwardCtx m dest nodes id sc ackToken with
  | error e => rfl
  | ok fc =>
    have h := (newForwardCtx_ok hfc).2.2
    have helig : eligible fc.destPeer fc.relays = fc.relays := by
      rw [h.destPeer, h.relays, eligible_relayPeers]
      exact filter_eq_self.mpr fun r hr => usable_relayPeers (fun n hn _ => hactive n hn) hr
    have hhops := h.hops_pos
    have hsome : ¬(fc.destPeer.id = "" ∨ fc.destPeer.pubKey.length = 0) := by
      rw [h.destPeer]
      exact not_or.mpr ⟨hne, hkey.ne'⟩
    simp only [Except.toOption, Option.any_some, ForwardCtx.plans, Routing.candidates, helig, if_neg hsome]
    rw [if_neg (by omega)]
    by_cases hlen : fc.relays.length = 0
    · simp [hhops, hlen]
    · simp [hlen, Nat.pos_of_ne_zero hlen]

/-- When the two sends decide alike. --/
structure Plain (s : Sender) (env : Surroundings) (destNode : String) : Prop where
  /-- A destination that is not active cannot be reached over a circuit either, or no node at all is active. -/
  absent : (∀ n ∈ env.lookup.resolveDest destNode, n.id ≠ destNode) →
    env.lookup.resolveDest destNode = [] ∨ env.nodeByID = none ∨ env.circuitReachable = false
  /-- When anonymity is required, sends are to be onion-routed and the node has a key for that. -/
  anonymous : ∀ dest ∈ env.lookup.resolveDest destNode, dest.id = destNode → s.failClosed → s.wantForward ∧
    s.nodePriv.isSome
  /-- When anonymity is required, the destination can be entered, or there is no route anyhow. -/
  reserved : ∀ dest ∈ env.lookup.resolveDest destNode, dest.id = destNode → s.failClosed →
    Enters dest (s.relayPeers env.excommunicated (env.lookup.resolveDest destNode) destNode) ∨
      s.Blocked dest (s.relayPeers env.excommunicated (env.lookup.resolveDest destNode) destNode)

theorem byID_eq_find? (hnodup : (nodes.map (·.id)).Nodup) : byID nodes destNode = nodes.find? (·.id = destNode) := by
  rw [byID]
  cases hfirst : nodes.find? (·.id = destNode) with
  | none => exact find?_eq_none.mpr fun n hn => find?_eq_none.mp hfirst n (mem_reverse.mp hn)
  | some dest =>
    have hmem := mem_of_find?_eq_some hfirst
    cases hlast : nodes.reverse.find? (·.id = destNode) with
    | none => exact absurd (find?_some hfirst) (find?_eq_none.mp hlast dest (mem_reverse.mpr hmem))
    | some n =>
      have hid : n.id = destNode := by simpa using find?_some hlast
      have hid' : dest.id = destNode := by simpa using find?_some hfirst
      exact congrArg some
        (inj_on_of_nodup_map hnodup (mem_reverse.mp (mem_of_find?_eq_some hlast)) hmem (hid.trans hid'.symm))

/-- To a destination that is active the sends go alike, unless anonymity is required and the message goes out
    nevertheless, or is dropped without a word. --/
theorem routes_present (hne : destNode ≠ "") (hnodup : ((env.lookup.resolveDest destNode).map (·.id)).Nodup)
    (hactive : ∀ n ∈ env.lookup.resolveDest destNode, n.active)
    (hmoment : (env.attempts 0).excommunicated = env.excommunicated)
    (hdest : (env.lookup.resolveDest destNode).find? (·.id = destNode) = some dest) :
    s.streamRoute ⟨env.lookup, ackToken', env.attempts 0⟩ id' destNode sc' ackToken' =
      s.dataRoute env id destNode sc ackToken ↔
      (s.failClosed → (s.wantForward ∧ s.nodePriv.isSome) ∧
        (Enters dest (s.relayPeers env.excommunicated (env.lookup.resolveDest destNode) destNode) ∨
          s.Blocked dest (s.relayPeers env.excommunicated (env.lookup.resolveDest destNode) destNode))) := by
  have hid : dest.id = destNode := by simpa using find?_some hdest
  have hlast := (byID_eq_find? hnodup).trans hdest
  have hsome : (env.lookup.resolveDest destNode).length ≠ 0 := (length_pos_of_mem (mem_of_find?_eq_some hdest)).ne'
  have hnodes : env.candidates destNode = env.lookup.resolveDest destNode := by rw [Surroundings.candidates, hlast]
  have hroute : s.noRoute env destNode (env.lookup.resolveDest destNode) ↔ s.failClosed ∧ s.wantForward ∧
    s.nodePriv.isSome ∧
      s.Blocked dest (s.relayPeers env.excommunicated (env.lookup.resolveDest destNode) destNode) := by
    simp [noRoute, hlast, hne, Blocked, and_assoc, or_assoc]
  rw [streamRoute, dataRoute, hnodes, hlast, hdest, if_neg hsome]
  simp only [hroute]
  have hkey : s.Blocked dest (s.relayPeers env.excommunicated (env.lookup.resolveDest destNode) destNode) ∨
      0 < dest.pubKey.length := by
    rw [Blocked]
    omega
  have hforward := any_newForwardCtx (s := s) (env.attempts 0) dest (env.lookup.resolveDest destNode)
  have hplans := plans_eq (s := s) hactive (hid ▸ hne) (env.attempts 0) id sc ackToken
  rw [hmoment, hid] at hforward
  grind

namespace Trio
open Transfer.Sample (node labelSealer transferID)

def streaming : Sender := { sender with cfg := node 2 1 16 (some labelSealer), perHopRouting := false }

def natted : Surroundings :=
  { surroundings true with
    lookup := { active := [peer "a" 2, peer "b" 3], found := true, reachable := true,
                activeFound := [peer "a" 2, peer "b" 3], resolved := false, activeResolved := [] }
    nodeByID := some { peer "d" 1 with active := false, relayIDs := ["a"] }
    circuitReachable := true }

def streamed (env : Surroundings) : StreamSurroundings := ⟨env.lookup, env.ackToken, env.attempts 0⟩

end Trio

end Sender
end SyncSwarm.Transfer
