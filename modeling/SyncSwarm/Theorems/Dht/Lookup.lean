import SyncSwarm.Dht.Lookup
import SyncSwarm.Lib.Distinct
import SyncSwarm.Theorems.Dht.Table

/-! The lookup against any query callback. Between two rounds the shortlist is the `k` nearest of all the
    contacts that were heard of. -/

namespace SyncSwarm.Dht
open Lib ID List Option

def repliesFrom (query : Query) (before : List Contact) : List Contact → List Contact
  | [] => []
  | c :: cs => query before c ++ repliesFrom query (before ++ [c]) cs

def replies (query : Query) (asked : List Contact) : List Contact := repliesFrom query [] asked

theorem repliesFrom_append (query : Query) (before cs ds : List Contact) :
    repliesFrom query before (cs ++ ds) = repliesFrom query before cs ++ repliesFrom query (before ++ cs) ds := by
  induction cs generalizing before with
  | nil => rw [append_nil]; rfl
  | cons c cs ih => rw [cons_append, repliesFrom, repliesFrom, ih, append_assoc, append_assoc, singleton_append]

theorem replies_append (query : Query) (asked cs : List Contact) :
    replies query (asked ++ cs) = replies query asked ++ repliesFrom query asked cs := by
  rw [replies, repliesFrom_append, nil_append, replies]

namespace Search

/-! ### Inside a round -/

/-- The contacts heard of are those of `h`: the queries are of different IDs and not of the node itself, and
    the IDs seen are those of `h` and the node's own. --/
structure Books (owner : ID) (h : List Contact) (s : Search) : Prop where
  queried : s.queried = (s.asked.map Contact.id).reverse ++ [owner]
  fresh : s.queried.Nodup
  seen : ∀ x, x ∈ s.seen ↔ x = owner ∨ x ∈ h.map Contact.id

def Grown (owner target : ID) (k : Nat) (h : List Contact) (s : Search) : Prop :=
  ∃ all kept new, firsts Contact.id [owner] h = all ++ new ∧ s.shortlist = kept ++ new ∧
    Nearest (fun c => distance target c.id) k all kept

/-- The shortlist is the nearest of what was heard. --/
structure Settled (owner target : ID) (k : Nat) (h : List Contact) (s : Search) : Prop where
  books : s.Books owner h
  nearest : Nearest (fun c => distance target c.id) k (firsts Contact.id [owner] h) s.shortlist

variable {owner target : ID} {k alpha : Nat} {h : List Contact} {s s' : Search} {query : Query}

theorem merge_asked (s : Search) (rs : List Contact) :
    (rs.foldl merge s).asked = s.asked ∧ (rs.foldl merge s).queried = s.queried := by
  induction rs generalizing s with
  | nil => exact ⟨rfl, rfl⟩
  | cons r rs ih =>
    rw [foldl_cons, (ih _).1, (ih _).2, merge]
    split <;> exact ⟨rfl, rfl⟩

theorem Books.merge (hs : s.Books owner h) (r : Contact) : (s.merge r).Books owner (h ++ [r]) := by
  have hmem : ∀ x, x ∈ (h ++ [r]).map Contact.id ↔ x ∈ h.map Contact.id ∨ x = r.id := by simp
  rw [Search.merge]
  split
  next hseen =>
    refine ⟨hs.queried, hs.fresh, fun x => ?_⟩
    rw [hs.seen x, hmem x]
    constructor
    · exact fun hx => hx.imp id .inl
    · rintro (hx | hx | rfl)
      · exact .inl hx
      · exact .inr hx
      · exact (hs.seen r.id).mp hseen
  · refine ⟨hs.queried, hs.fresh, fun x => ?_⟩
    rw [mem_cons, hs.seen x, hmem x]
    tauto

theorem Grown.merge (hs : s.Books owner h) (hgrown : s.Grown owner target k h) (r : Contact) :
    (s.merge r).Grown owner target k (h ++ [r]) := by
  obtain ⟨all, kept, new, hfirsts, hshort, hnear⟩ := hgrown
  rw [Search.merge]
  split
  next hseen =>
    have hold : r.id ∈ [owner] ∨ r.id ∈ h.map Contact.id := ((hs.seen r.id).mp hseen).imp mem_singleton.mpr id
    exact ⟨all, kept, new, (firsts_append_of_mem hold).trans hfirsts, hshort, hnear⟩
  next hseen =>
    obtain ⟨hself, hnew⟩ := not_or.mp fun hx => hseen ((hs.seen r.id).mpr hx)
    refine ⟨all, kept, new ++ [r], ?_, ?_, hnear⟩
    · rw [firsts_append_of_new (by simpa using hself) hnew, hfirsts, append_assoc]
    · show s.shortlist ++ [r] = _
      rw [hshort, append_assoc]

theorem foldl_merge (rs : List Contact) (hs : s.Books owner h) (hgrown : s.Grown owner target k h) :
    (rs.foldl merge s).Books owner (h ++ rs) ∧ (rs.foldl merge s).Grown owner target k (h ++ rs) := by
  induction rs generalizing s h with
  | nil => rw [append_nil]; exact ⟨hs, hgrown⟩
  | cons r rs ih =>
    have hnext := ih (hs.merge r) (hgrown.merge hs r)
    rwa [append_assoc, singleton_append] at hnext

theorem ask_grown (query : Query) {c : Contact} (hc : c.id ∉ s.queried) (hs : s.Books owner h)
    (hgrown : s.Grown owner target k h) :
    (s.ask query c).Books owner (h ++ query s.asked c) ∧
      (s.ask query c).Grown owner target k (h ++ query s.asked c) := by
  refine foldl_merge _ ⟨?_, nodup_cons.mpr ⟨hc, hs.fresh⟩, hs.seen⟩ hgrown
  rw [hs.queried, map_append, map_singleton, reverse_append, reverse_singleton, singleton_append,
    cons_append]

theorem ask_asked (query : Query) (s : Search) (c : Contact) :
    (s.ask query c).asked = s.asked ++ [c] ∧ (s.ask query c).queried = c.id :: s.queried := merge_asked _ _

theorem foldl_ask_asked (query : Query) (cs : List Contact) (s : Search) :
    (cs.foldl (ask query) s).asked = s.asked ++ cs := by
  induction cs generalizing s with
  | nil => rw [append_nil]; rfl
  | cons c cs ih => rw [foldl_cons, ih, (ask_asked query s c).1, append_assoc, singleton_append]

theorem foldl_ask (query : Query) {cs : List Contact} (hnodup : (cs.map Contact.id).Nodup)
    (hcs : ∀ c ∈ cs, c.id ∉ s.queried) (hs : s.Books owner h) (hgrown : s.Grown owner target k h) :
    (cs.foldl (ask query) s).Books owner (h ++ repliesFrom query s.asked cs) ∧
      (cs.foldl (ask query) s).Grown owner target k (h ++ repliesFrom query s.asked cs) := by
  induction cs generalizing s h with
  | nil => rw [repliesFrom, append_nil]; exact ⟨hs, hgrown⟩
  | cons c cs ih =>
    obtain ⟨hnot, hnodup⟩ := nodup_cons.mp hnodup
    obtain ⟨hasked, hqueried⟩ := ask_asked query s c
    obtain ⟨hs, hgrown⟩ := ask_grown query (hcs c mem_cons_self) hs hgrown
    have hrest : ∀ d ∈ cs, d.id ∉ (s.ask query c).queried := by
      intro d hd hmem
      rcases mem_cons.mp (hqueried ▸ hmem) with heq | hmem
      · exact hnot (heq ▸ mem_map_of_mem hd)
      · exact hcs d (mem_cons_of_mem _ hd) hmem
    have hnext := ih hnodup hrest hs hgrown
    rwa [hasked, append_assoc] at hnext

/-! ### Rounds -/

theorem nodup_ids_of_increasing {l : List Contact}
    (hl : l.Pairwise (fun a b => distance target a.id < distance target b.id)) :
    (l.map Contact.id).Nodup :=
  pairwise_map.mpr (hl.imp fun hlt heq => absurd (heq ▸ hlt) (Nat.lt_irrefl _))

theorem Grown.trim (hgrown : s.Grown owner target k h) :
    Nearest (fun c => distance target c.id) k (firsts Contact.id [owner] h) (s.trim target k).shortlist := by
  obtain ⟨all, kept, new, hfirsts, hshort, hnear⟩ := hgrown
  have hall : ((all ++ new).map Contact.id).Nodup := hfirsts ▸ nodup_takeNew _ _ _
  rw [map_append] at hall
  obtain ⟨-, hnew, hapart⟩ := nodup_append.mp hall
  have hids : ((kept ++ new).map Contact.id).Nodup := by
    rw [map_append]
    refine nodup_append.mpr ⟨nodup_ids_of_increasing hnear.increasing, hnew, ?_⟩
    exact fun x hx => hapart x (map_subset _ hnear.subset hx)
  rw [hfirsts]
  refine hnear.append ?_
  rw [Search.trim, hshort]
  exact RoutingTable.nearest_sorted hids target k

theorem Settled.grown (hs : s.Settled owner target k h) : s.Grown owner target k h :=
  ⟨_, _, [], (append_nil _).symm, (append_nil _).symm, hs.nearest⟩

theorem nodup_batch (hs : s.Settled owner target k h) (alpha : Nat) : ((s.batch alpha).map Contact.id).Nodup :=
  (nodup_ids_of_increasing hs.nearest.increasing).sublist (((take_sublist _ _).trans filter_sublist).map _)

theorem mem_batch {c : Contact} (hc : c ∈ s.batch alpha) : c ∈ s.shortlist ∧ c.id ∉ s.queried := by
  simpa using mem_filter.mp (mem_of_mem_take hc)

theorem step_eq_some (hstep : s.step query target k alpha = some s') :
    s.batch alpha ≠ [] ∧ s' = { ((s.batch alpha).foldl (ask query) s).trim target k with round := s.round + 1 } := by
  rw [step] at hstep
  split at hstep
  · cases hstep
  · next hne => exact ⟨hne, (Option.some.inj hstep).symm⟩

theorem step_eq_none (hstep : s.step query target k alpha = none) : s.batch alpha = [] := by
  rw [step] at hstep
  split at hstep
  · next hnil => exact hnil
  · cases hstep

theorem step_asked (hstep : s.step query target k alpha = some s') :
    s'.asked = s.asked ++ s.batch alpha ∧ s'.round = s.round + 1 := by
  obtain ⟨-, rfl⟩ := step_eq_some hstep
  exact ⟨foldl_ask_asked query _ s, rfl⟩

def Tracks (owner target : ID) (k : Nat) (start : List Contact) (query : Query) (s : Search) : Prop :=
  s.Settled owner target k (start ++ replies query s.asked)

variable {start : List Contact}

theorem Tracks.step (hs : s.Tracks owner target k start query) (hstep : s.step query target k alpha = some s') :
    s'.Tracks owner target k start query := by
  have hasked := (step_asked hstep).1
  obtain ⟨-, rfl⟩ := step_eq_some hstep
  obtain ⟨hbooks, hgrown⟩ := foldl_ask query (nodup_batch hs alpha) (fun c hc => (mem_batch hc).2) hs.books hs.grown
  rw [Tracks, hasked, replies_append, ← append_assoc]
  exact ⟨⟨hbooks.queried, hbooks.fresh, hbooks.seen⟩, hgrown.trim⟩

theorem Tracks.run (hs : s.Tracks owner target k start query) (alpha n : Nat) :
    (s.run query target k alpha n).Tracks owner target k start query := by
  induction n generalizing s with
  | zero => exact hs
  | succ n ih =>
    rw [Search.run]
    split
    · exact hs
    · next hstep => exact ih (hs.step hstep)

theorem run_of_none {query : Query} (hstep : s.step query target k alpha = none) (n : Nat) :
    s.run query target k alpha n = s := by
  cases n with
  | zero => rfl
  | succ n => rw [run, hstep]

theorem run_of_some {query : Query} (hstep : s.step query target k alpha = some s') (n : Nat) :
    s.run query target k alpha (n + 1) = s'.run query target k alpha n := by
  rw [run, hstep]

theorem run_succ (query : Query) (target : ID) (k alpha n : Nat) (s : Search) :
    s.run query target k alpha (n + 1) =
      ((s.run query target k alpha n).step query target k alpha).getD (s.run query target k alpha n) := by
  induction n generalizing s with
  | zero =>
    cases hstep : s.step query target k alpha with
    | none => rw [run_of_none hstep, run, hstep, getD_none]
    | some s' => rw [run_of_some hstep, run, run, hstep, getD_some]
  | succ n ih =>
    cases hstep : s.step query target k alpha with
    | none => rw [run_of_none hstep, run_of_none hstep, hstep, getD_none]
    | some s' => rw [run_of_some hstep, run_of_some hstep, ih s']

theorem run_bounds (query : Query) (target : ID) (k alpha n : Nat) (s : Search) :
    (s.run query target k alpha n).asked.length ≤ s.asked.length + alpha * n ∧
      ((s.run query target k alpha n).round < s.round + n → (s.run query target k alpha n).batch alpha = []) := by
  induction n generalizing s with
  | zero => exact ⟨Nat.le_refl _, fun hlt => absurd hlt (Nat.lt_irrefl _)⟩
  | succ n ih =>
    rw [Search.run]
    split
    · next hstep => exact ⟨Nat.le_add_right _ _, fun _ => step_eq_none hstep⟩
    next s' hstep =>
      obtain ⟨hasked, hround⟩ := step_asked hstep
      obtain ⟨ihasked, ihround⟩ := ih s'
      have hbatch : (s.batch alpha).length ≤ alpha := length_take_le _ _
      rw [hasked, length_append] at ihasked
      rw [hround] at ihround
      refine ⟨?_, fun hlt => ihround (by omega)⟩
      rw [Nat.mul_succ]
      omega

theorem Settled.all_queried (hs : s.Settled owner target k h) (howner : ∀ c ∈ s.shortlist, c.id ≠ owner)
    (halpha : 0 < alpha) (hnil : s.batch alpha = []) : ∀ c ∈ s.shortlist, c.id ∈ s.asked.map Contact.id := by
  intro c hc
  have hfilter : s.shortlist.filter (·.id ∉ s.queried) = [] := (take_eq_nil_iff.mp hnil).resolve_left (by omega)
  have hmem : c.id ∈ s.queried := by simpa using filter_eq_nil_iff.mp hfilter c hc
  rw [hs.books.queried, mem_append, mem_reverse, mem_singleton] at hmem
  exact hmem.resolve_right (howner c hc)

end Search

open Search

theorem lookupAlpha_pos (alpha : Int) : 0 < lookupAlpha alpha := by
  rw [lookupAlpha]
  split
  · decide
  · omega

namespace RoutingTable

theorem lookupK_pos (rt : RoutingTable) (k : Int) : 0 < rt.lookupK k := by
  rw [lookupK]
  split
  · exact rt.k_pos
  · omega

theorem closest_subset (rt : RoutingTable) (target : ID) (k : Nat) : rt.closest target k ⊆ rt.contacts :=
  (rt.closest_nearest target k).subset

theorem tracks_startLookup (rt : RoutingTable) (target : ID) (k : Nat) (query : Query) :
    (rt.startLookup target k).Tracks rt.self target k (rt.closest target k) query := by
  have hnear := rt.closest_nearest target k
  have hfirsts : firsts Contact.id [rt.self] (rt.closest target k) = rt.closest target k := by
    refine firsts_of_nodup (fun c hc hself => ?_) (nodup_ids_of_increasing hnear.increasing)
    exact ne_self_of_mem (hnear.subset hc) (mem_singleton.mp hself)
  have hheard : rt.closest target k ++ replies query [] = rt.closest target k := append_nil _
  rw [Tracks, startLookup, hheard]
  refine ⟨⟨rfl, nodup_singleton _, fun x => ?_⟩, ?_⟩
  · rw [mem_append, mem_singleton, or_comm]
  · rw [hfirsts]
    refine ⟨hnear.increasing, fun c hc => hc, (Nat.min_eq_right hnear.length_le).symm, fun c hc hnot => absurd hc hnot⟩

/-- The contacts that `lookup` starts from and those that it is told of. --/
def heard (rt : RoutingTable) (target : ID) (k alpha maxRounds : Int) (query : Query) : List Contact :=
  rt.closest target (rt.lookupK k) ++ replies query (rt.search target k alpha maxRounds query).asked

/-- Whatever the replies, a lookup makes at most `alpha` queries in each of its rounds and none of an ID that it
    queried before or of its own. It returns the `k` nearest, in increasing distance, of the contacts it heard of,
    each ID at the address that was heard first; if it stopped early it has queried all of them. A value that is
    not positive stands for the default. --/
theorem lookup_nearest (rt : RoutingTable) (target : ID) (k alpha maxRounds : Int) (query : Query) :
    (rt.search target k alpha maxRounds query).asked.length ≤ lookupAlpha alpha * lookupRounds maxRounds ∧
    (rt.self :: (rt.search target k alpha maxRounds query).asked.map Contact.id).Nodup ∧
    Nearest (fun c => distance target c.id) (rt.lookupK k)
      (firsts Contact.id [rt.self] (rt.heard target k alpha maxRounds query))
        (rt.lookup target k alpha maxRounds query) ∧
    (∀ c ∈ rt.lookup target k alpha maxRounds query,
      (rt.heard target k alpha maxRounds query).find? (fun d => d.id = c.id) = some c) ∧
    ((rt.search target k alpha maxRounds query).round < lookupRounds maxRounds →
      ∀ c ∈ rt.lookup target k alpha maxRounds query,
        c.id ∈ (rt.search target k alpha maxRounds query).asked.map Contact.id) := by
  have hs : (rt.search target k alpha maxRounds query).Tracks rt.self target (rt.lookupK k)
      (rt.closest target (rt.lookupK k)) query :=
    (rt.tracks_startLookup target (rt.lookupK k) query).run _ _
  obtain ⟨hasked, hround⟩ := run_bounds query target (rt.lookupK k) (lookupAlpha alpha) (lookupRounds maxRounds)
    (rt.startLookup target (rt.lookupK k))
  have hfresh := hs.books.fresh
  rw [hs.books.queried] at hfresh
  refine ⟨?_, ?_, hs.nearest, ?_, fun hlt => ?_⟩
  · exact hasked.trans (Nat.le_of_eq (Nat.zero_add _))
  · refine (List.Perm.nodup_iff ?_).mp hfresh
    exact (perm_append_singleton _ _).trans ((reverse_perm _).cons _)
  · exact fun c hc => find?_of_mem_takeNew c (hs.nearest.subset hc)
  · refine Settled.all_queried hs (fun c hc => ?_) (lookupAlpha_pos alpha) (hround (by rwa [startLookup, Nat.zero_add]))
    exact fun heq => takeNew_notMem c (hs.nearest.subset hc) (mem_singleton.mpr heq)

/-! ### A table with one contact -/

namespace Sample

def node (n : UInt8) : ID := ⟨List.replicate 15 0 ++ [n], rfl⟩

def contact (n : UInt8) : Contact := ⟨node n, "", 0⟩

def pair : RoutingTable := (newRoutingTable (node 1) 1).update (contact 2)

end Sample

open Sample

theorem lookup_pair :
    ¬ ((pair.search (node 2) 1 0 1 fun _ _ => []).asked.length : Int) ≤ 0 * 1 ∧
      ¬ ((pair.lookup (node 2) 0 1 1 fun _ _ => []).length : Int) ≤ 0 := by
  decide +kernel

end RoutingTable
end SyncSwarm.Dht
