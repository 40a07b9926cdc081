import SyncSwarm.Discovery.Peers

/-! AutoNAT: rounds in which peers are asked to dial the data port back. They may overlap, and the nonce alone says
    which one a result is for. -/

namespace SyncSwarm.Discovery
open Lib

def reachProbePeers : Nat := 3
def reachMinResponders : Nat := 2
def reachSoloRounds : Nat := 3

/-- A result, with the address that it comes from. The round gets no more of it than what it says. --/
structure DialBack where
  sender : String
  reachable : Bool
  deriving DecidableEq

/-- A run of `checkReachability`. --/
structure ReachRound where
  nonce : UInt64
  peers : List String
  ch : List Bool := []
  responses : Nat := 0
  reachable : Bool := false
  /-- Everything that has come for the round. -/
  results : List DialBack := []
  ended : Bool := false
  deriving DecidableEq

structure Reachability where
  port : UInt16
  nonceCounter : UInt64 := 0
  rounds : List ReachRound := []
  reachPending : GoMap UInt64 Nat := ∅
  soloFailures : Nat := 0
  reachable : Bool := false
  reachKnown : Bool := false
  /-- The calls of `onReachability`. -/
  calls : List Bool := []
  /-- The rounds that were concluded, the last one at the end. -/
  concluded : List Nat := []

/-- The nodes come in the order in which the map gives them. --/
def probeTargets (net : Net) (selfID : String) (nodes : List Node) (n : Nat) : List String :=
  ((nodes.filter fun node => node.active && node.id != selfID).filterMap fun node => net.resolve node.address).take n

namespace Reachability

def new (port : UInt16) : Reachability := { port }

def verdict (s : Reachability) : Option Bool := if s.reachKnown then some s.reachable else none

def setReachable (s : Reachability) (reachable : Bool) : Reachability :=
  let changed := !s.reachKnown || s.reachable != reachable
  { s with reachKnown := true, reachable, calls := if changed then s.calls ++ [reachable] else s.calls }

def concludeRound (s : Reachability) (responses : Nat) (reachable : Bool) : Reachability :=
  if reachable then { s with soloFailures := 0 }.setReachable true
  else if reachMinResponders ≤ responses then { s with soloFailures := 0 }.setReachable false
  else if responses = 0 then s
  else
    let s := { s with soloFailures := s.soloFailures + 1 }
    if reachSoloRounds ≤ s.soloFailures then s.setReachable false else s

/-- The beginning of `checkReachability`, up to its loop. --/
def check (net : Net) (selfID : String) (s : Reachability) (nodes : List Node) : Reachability :=
  let peers := probeTargets net selfID nodes reachProbePeers
  if s.port = 0 ∨ peers = [] then s
  else
    let nonce := s.nonceCounter + 1
    { s with
      nonceCounter := nonce
      rounds := s.rounds ++ [{ nonce, peers }]
      reachPending := s.reachPending.set nonce s.rounds.length }

def awaiting (s : Reachability) (nonce : UInt64) : Option ReachRound :=
  (s.reachPending.get? nonce).bind fun ref => s.rounds[ref]?

/-- The lookup and the send are one step. A round that is over reads no more from its channel. --/
def handleReachabilityResult (s : Reachability) (nonce : UInt64) (result : DialBack) : Reachability :=
  match s.reachPending.get? nonce with
  | none => s
  | some ref => { s with rounds := s.rounds.modify ref fun r =>
      { r with
        results := r.results ++ [result]
        ch := if r.ch.length < r.peers.length then r.ch ++ [result.reachable] else r.ch } }

/-- What follows a turn of the loop that leaves the round `r`: another turn, or the verdict. --/
def turn (s : Reachability) (ref : Nat) (r : ReachRound) : Reachability :=
  if r.reachable || r.peers.length ≤ r.responses then
    { s.concludeRound r.responses r.reachable with
      rounds := s.rounds.set ref { r with ended := true }
      reachPending := s.reachPending.delete r.nonce
      concluded := s.concluded ++ [ref] }
  else { s with rounds := s.rounds.set ref r }

inductive Op where
  | check (nodes : List Node)
  /-- The counter is used for something else. -/
  | draw
  | result (nonce : UInt64) (result : DialBack)
  | receive (ref : Nat)
  | timeout (ref : Nat)
  | stop (ref : Nat)

def step (net : Net) (selfID : String) (s : Reachability) : Op → Option Reachability
  | .check nodes => some (s.check net selfID nodes)
  | .draw => some { s with nonceCounter := s.nonceCounter + 1 }
  | .result nonce result => some (s.handleReachabilityResult nonce result)
  | .receive ref => (s.rounds[ref]?.filter (!·.ended)).bind fun r =>
    match r.ch with
    | [] => none
    | ok :: ch => some (s.turn ref { r with ch, responses := r.responses + 1, reachable := r.reachable || ok })
  | .timeout ref => (s.rounds[ref]?.filter (!·.ended)).map fun r => s.turn ref { r with responses := r.peers.length }
  | .stop ref => (s.rounds[ref]?.filter (!·.ended)).map fun r =>
    { s with rounds := s.rounds.set ref { r with ended := true }, reachPending := s.reachPending.delete r.nonce }

end Reachability
end SyncSwarm.Discovery
