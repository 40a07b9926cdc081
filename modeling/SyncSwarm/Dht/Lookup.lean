import SyncSwarm.Dht.Table

/-! The iterative node lookup (`RoutingTable.Lookup`). The query callback may answer as it likes, and
    differently each time. -/

namespace SyncSwarm.Dht
open Lib ID

def defaultAlpha : Nat := 3

def defaultMaxRounds : Nat := 20

/-- What a query of a contact returns, after the queries of other contacts before it. --/
abbrev Query := List Contact → Contact → List Contact

/-- The state of a lookup: the shortlist, the IDs that were queried and those that were seen, the queries
    made so far and the loop counter. --/
structure Search where
  shortlist : List Contact
  queried : List ID
  seen : List ID
  asked : List Contact
  round : Nat
  deriving DecidableEq

namespace Search

def merge (s : Search) (r : Contact) : Search :=
  if r.id ∈ s.seen then s else { s with seen := r.id :: s.seen, shortlist := s.shortlist ++ [r] }

def ask (query : Query) (s : Search) (c : Contact) : Search :=
  (query s.asked c).foldl merge { s with queried := c.id :: s.queried, asked := s.asked ++ [c] }

def batch (alpha : Nat) (s : Search) : List Contact := (s.shortlist.filter (·.id ∉ s.queried)).take alpha

def trim (target : ID) (k : Nat) (s : Search) : Search :=
  { s with shortlist := (sortSlice (fun a b => closer target a.id b.id) s.shortlist).take k }

/-- One round; `none` when there is nothing left to query. --/
def step (query : Query) (target : ID) (k alpha : Nat) (s : Search) : Option Search :=
  if s.batch alpha = [] then none
  else some { ((s.batch alpha).foldl (ask query) s).trim target k with round := s.round + 1 }

def run (query : Query) (target : ID) (k alpha : Nat) : Nat → Search → Search
  | 0, s => s
  | n + 1, s =>
    match s.step query target k alpha with
    | none => s
    | some s' => run query target k alpha n s'

end Search

def lookupAlpha (alpha : Int) : Nat := if alpha ≤ 0 then defaultAlpha else alpha.toNat

def lookupRounds (maxRounds : Int) : Nat := if maxRounds ≤ 0 then defaultMaxRounds else maxRounds.toNat

namespace RoutingTable

/-- The width of the shortlist: the table's own `k` unless another is given. --/
def lookupK (rt : RoutingTable) (k : Int) : Nat := if k ≤ 0 then rt.k else k.toNat

def startLookup (rt : RoutingTable) (target : ID) (k : Nat) : Search where
  shortlist := rt.closest target k
  queried := [rt.self]
  seen := (rt.closest target k).map Contact.id ++ [rt.self]
  asked := []
  round := 0

def search (rt : RoutingTable) (target : ID) (k alpha maxRounds : Int) (query : Query) : Search :=
  (rt.startLookup target (rt.lookupK k)).run query target (rt.lookupK k) (lookupAlpha alpha) (lookupRounds maxRounds)

def lookup (rt : RoutingTable) (target : ID) (k alpha maxRounds : Int) (query : Query) : List Contact :=
  (rt.search target k alpha maxRounds query).shortlist

end RoutingTable
end SyncSwarm.Dht
