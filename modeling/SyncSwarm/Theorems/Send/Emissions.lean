import SyncSwarm.Transfer.Send
import SyncSwarm.Theorems.Routing.Planner

/-! What leaves the node when it sends, function by function. -/

namespace SyncSwarm.Transfer
open Lib Protocol Fragment Encryption Routing
open Discovery (Node)

inductive Emission.Hands (nodeID addr : String) (blob : Bytes) : Emission → Prop where
  | dial {ok} : Hands nodeID addr blob (.dial addr ok)
  | write {ok} : Hands nodeID addr blob (.write addr (.relay blob) ok)
  | dialLink {ok} : Hands nodeID addr blob (.dialLink nodeID ok)
  | sendRelay {ok} : Hands nodeID addr blob (.sendRelay nodeID blob ok)

namespace Sender
variable {s : Sender} {m : Moment} {addr nodeID : String} {blob : Bytes}

theorem only_dialTimes {P : Emission → Prop} (h : ∀ ok, P (.dial addr ok)) (n : Nat) :
    Tries.Only P (dialTimes addr n) := by
  induction n with
  | zero => exact Tries.Only.of_pure
  | succ n ih => exact Tries.Only.of_or (Tries.Only.of_attempt h) ih

theorem only_sendRelayBlob : Tries.Only (Emission.Hands nodeID addr blob) (sendRelayBlob addr blob) := by
  have hwrite : Tries.Only (Emission.Hands nodeID addr blob) (Tries.attempt (.write addr (.relay blob))) :=
    Tries.Only.of_attempt fun _ => .write
  exact Tries.Only.of_or (Tries.Only.of_and Tries.Only.of_ask hwrite)
    (Tries.Only.of_and (only_dialTimes (fun _ => .dial) maxRetries) hwrite)

theorem only_sendRelayViaLink : Tries.Only (Emission.Hands nodeID addr blob) (sendRelayViaLink nodeID blob) := by
  rw [sendRelayViaLink]
  split
  · exact Tries.Only.of_pure
  · exact Tries.Only.of_and (Tries.Only.of_attempt fun _ => .dialLink) (Tries.Only.of_attempt fun _ => .sendRelay)

theorem only_sendRelayHop : Tries.Only (Emission.Hands nodeID addr blob) (s.sendRelayHop nodeID addr blob) := by
  rw [sendRelayHop]
  split
  · exact Tries.Only.of_or only_sendRelayViaLink only_sendRelayBlob
  · exact Tries.Only.of_or only_sendRelayBlob only_sendRelayViaLink

/-! ### Onions -/

theorem one_le_pathsFor (relays : List Peer) (destAddr : String) : 1 ≤ s.pathsFor relays destAddr := by
  simp only [pathsFor]
  split_ifs <;> omega

structure ForwardCtx.Toward (fc : ForwardCtx) (s : Sender) (m : Moment) (nodes : List Node) (dest : Node) : Prop where
  destID : fc.destID = dest.id
  destPeer : fc.destPeer = s.destPeer dest
  relays : fc.relays = s.relayPeers m.excommunicated nodes dest.id
  hops : fc.hops = s.hopsFor fc.relays (s.peerDialAddr dest)
  hops_pos : 0 < fc.hops
  paths_pos : 0 < fc.paths

theorem newForwardCtx_ok {dest : Node} {nodes : List Node} {id : TransferID} {sc : Scheme} {ackToken : Bytes}
    {fc : ForwardCtx} (h : s.newForwardCtx m dest nodes id sc ackToken = .ok fc) :
    fc.id = id ∧ fc.sc = sc ∧ fc.Toward s m nodes dest := by
  simp only [newForwardCtx] at h
  split at h
  · cases h
  · split at h
    · cases h
    · split at h
      · cases h
      next hhops =>
        cases h
        refine ⟨rfl, rfl, rfl, rfl, rfl, rfl, Int.not_le.mp hhops, ?_⟩
        have := s.one_le_pathsFor (s.relayPeers m.excommunicated nodes dest.id) (s.peerDialAddr dest)
        dsimp only
        split <;> omega

namespace ForwardCtx
variable {fc : ForwardCtx} {piece : Fragment} {inner : Bytes} {copyIdx : Nat} {first : Hop}

theorem onion_ok (h : fc.onion s m piece inner copyIdx = .ok (first, blob)) :
    ∃ hops onionHops, fc.path s piece copyIdx = .ok hops ∧ s.toOnionHops hops = .ok onionHops ∧
      s.hybrid.buildOnion (m.draw piece copyIdx) onionHops inner = .ok blob ∧ first = hops.headD fc.destPeer.hop := by
  simp only [onion, bind_eq_ok, pure_eq_ok, Prod.mk.injEq] at h
  obtain ⟨hops, hhops, onionHops, honion, blob', hblob, rfl, rfl⟩ := h
  exact ⟨hops, onionHops, hhops, honion, hblob, rfl⟩

/-- What a piece is handed over with: the first hop of one of its copies gets the copy's onion. --/
def Copies (fc : ForwardCtx) (s : Sender) (m : Moment) (piece : Fragment) (e : Emission) : Prop :=
  ∃ copyIdx first blob, fc.onion s m piece (fc.inner s m piece) copyIdx = .ok (first, blob) ∧
    e.Hands first.nodeID first.address blob

theorem only_sendCopies (copies : List Nat) (sent : Bool) :
    Tries.Only (fc.Copies s m piece) (fc.sendCopies s m piece (fc.inner s m piece) copies sent) := by
  induction copies generalizing sent with
  | nil => exact Tries.Only.of_pure
  | cons copyIdx rest ih =>
    rw [sendCopies]
    split
    · exact Tries.Only.of_pure
    next first blob honion =>
      refine Tries.Only.bind (only_sendRelayHop.mono fun _ done h e he => ?_) fun ok => ih _
      exact ⟨copyIdx, first, blob, honion, h e he⟩

theorem only_sendPiece : Tries.Only (fc.Copies s m piece) (fc.sendPiece s m piece) := by
  refine Tries.Only.bind (only_sendCopies _ _) fun out => ?_
  cases out with
  | error e | ok sent => exact Tries.Only.of_pure

theorem only_sendFragment {frag : Fragment} :
    Tries.Only (fun e => ∃ piece ∈ fragmentPieces frag s.subChunkSize, fc.Copies s m piece e)
      (fc.sendFragment s m frag) :=
  Tries.Only.of_each fun piece hpiece => only_sendPiece.mono fun _ _ h e he => ⟨piece, hpiece, h e he⟩

end ForwardCtx

variable {id : TransferID} {env : Surroundings} {data : Bytes} {destNode : String} {isVariable : Bool} {job : Job}
  {e : Emission}

theorem only_sendForwarded {dest : Node} {nodes : List Node} {frags : List Fragment} {sc : Scheme} {ackToken : Bytes} :
    Tries.Only (fun e => ∃ fc, s.newForwardCtx m dest nodes id sc ackToken = .ok fc ∧ ∃ piece, fc.Copies s m piece e)
      (s.sendForwarded m dest nodes id frags sc ackToken) := by
  rw [sendForwarded]
  split
  · exact Tries.Only.of_pure
  next fc hfc =>
    refine Tries.Only.of_each fun frag _ => ForwardCtx.only_sendFragment.mono fun _ _ h e he => ?_
    obtain ⟨piece, -, hcopies⟩ := h e he
    exact ⟨fc, hfc, piece, hcopies⟩

/-! ### Attempts -/

/-- The fragments of a payload and their scheme, with the sealer for the destination. --/
def Cut (s : Sender) (env : Surroundings) (id : TransferID) (data : Bytes) (destNode : String) (isVariable : Bool)
    (frags : List Fragment) (sc : Scheme) : Prop :=
  ∃ plain, s.cfg.buildFragments s.rs id data isVariable (s.contentSealer (byID (env.candidates destNode) destNode)).1 =
    .ok (frags, plain) ∧
    sc = { plain with hybridSealed := (s.contentSealer (byID (env.candidates destNode) destNode)).2.1
                      pq := (s.contentSealer (byID (env.candidates destNode) destNode)).2.2 }

/-- What is known of a send that gets as far as its first attempt. --/
structure Prepared (s : Sender) (env : Surroundings) (id : TransferID) (data : Bytes) (dest : String)
    (isVariable : Bool) (job : Job) :
    Prop where
  transferID : job.id = id
  destNode : job.destNode = dest
  nodes : job.nodes = env.candidates dest
  active : (env.lookup.resolveDest dest).length ≠ 0
  known : dest ≠ "" → (byID job.nodes dest).isSome
  route : s.noRoute env dest job.nodes = false
  cut : s.Cut env id data dest isVariable job.frags job.sc
  ackToken : job.ackToken = if dest ≠ "" ∧ s.confirm then env.ackToken else []

theorem prepare_ok (h : s.prepare env id data destNode isVariable = .ok job) :
    s.Prepared env id data destNode isVariable job := by
  simp only [prepare] at h
  split at h
  · cases h
  next hactive =>
    split at h
    · cases h
    next hknown =>
      split at h
      · cases h
      next hroute =>
        simp only [bind_eq_ok, mapError_eq_ok, pure_eq_ok] at h
        obtain ⟨⟨frags, sc⟩, hfrags, _, -, ordered, -, rfl⟩ := h
        refine ⟨rfl, rfl, rfl, hactive, fun hne => ?_, Bool.eq_false_iff.mpr hroute, ⟨sc, hfrags, rfl⟩, rfl⟩
        exact Option.isSome_iff_ne_none.mpr fun hnone => hknown ⟨hne, Option.isNone_iff_eq_none.mpr hnone⟩

theorem confirmLoop_emitted {attempts : Nat → Moment} {left k : Nat} {before : List Emission}
    (h : e ∈ (s.confirmLoop attempts job left k before).emitted) :
    e ∈ before ∨ ∃ k, e ∈ s.emittedOnce (attempts k) job := by
  induction left generalizing k before with
  | zero => exact .inl h
  | succ left ih =>
    have hnow : e ∈ before ++ s.emittedOnce (attempts k) job → e ∈ before ∨
        ∃ k, e ∈ s.emittedOnce (attempts k) job := fun he =>
      (List.mem_append.mp he).imp_right fun he => ⟨k, he⟩
    rw [confirmLoop] at h
    split at h
    · exact hnow h
    · exact hnow h
    · rcases ih h with h | h
      · exact hnow h
      · exact .inr h

theorem mem_emitted (h : e ∈ (s.sendDataTracked env id data destNode isVariable).emitted) :
    ∃ job k, s.prepare env id data destNode isVariable = .ok job ∧ e ∈ s.emittedOnce (env.attempts k) job := by
  rw [sendDataTracked] at h
  split at h
  · cases h
  next job hjob =>
    split at h
    · obtain h | ⟨k, hk⟩ := confirmLoop_emitted h
      · cases h
      · exact ⟨job, k, hjob, hk⟩
    · exact ⟨job, 0, hjob, h⟩

end Sender
end SyncSwarm.Transfer
