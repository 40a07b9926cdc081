import SyncSwarm.Theorems.Dht.Lookup

/-! A lookup among honest nodes finds its target: each reply holds a contact that has a longer prefix in common with the
    target. -/

namespace SyncSwarm.Dht
open Lib ID Search List Option

/-- Nodes that know of each other: each has a table of nodes of the network, with a contact in every bucket
    for which there is a node. --/
structure Network where
  nodes : Finset ID
  table : ID → RoutingTable
  owner : ∀ n ∈ nodes, (table n).self = n
  known : ∀ n ∈ nodes, ∀ c ∈ (table n).contacts, c.id ∈ nodes
  covers : ∀ n ∈ nodes, ∀ m ∈ nodes, ∀ i, bucketIndex n m = some i → (table n).buckets i ≠ []

namespace Network
variable (net : Network) {target : ID} {count : ID → Nat}

/-- Every node answers with its own contacts nearest to the target, up to the number it gives. --/
def answer (target : ID) (count : ID → Nat) : Query := fun _ c => (net.table c.id).closest target (count c.id)

theorem closest_longer {n : ID} (hn : n ∈ net.nodes) (htarget : target ∈ net.nodes) (hne : n ≠ target) {count : Nat}
    (hcount : 0 < count) :
    ∃ c ∈ (net.table n).closest target count, commonPrefix n target < commonPrefix c.id target := by
  obtain ⟨i, hi⟩ : ∃ i, bucketIndex n target = some i :=
    ne_none_iff_exists'.mp fun h => hne (bucketIndex_eq_none.mp h)
  obtain ⟨d, hd⟩ := exists_mem_of_ne_nil _ (net.covers n hn target htarget i hi)
  have hplaced : bucketIndex n d.id = some i := net.owner n hn ▸ (net.table n).placed i d hd
  have hstored : d ∈ (net.table n).contacts := RoutingTable.mem_contacts.mpr ⟨i, hd⟩
  obtain ⟨c, hhead, hle⟩ := ((net.table n).closest_nearest target count).head?_le hcount hstored
  exact ⟨c, mem_of_mem_head? hhead, (commonPrefix_lt hplaced hi).trans_le (commonPrefix_le hle)⟩

theorem closest_known {n : ID} (hn : n ∈ net.nodes) (count : Nat) :
    ∀ c ∈ (net.table n).closest target count, c.id ∈ net.nodes :=
  fun c hc => net.known n hn c ((net.table n).closest_subset target count hc)

theorem repliesFrom_answer (before asked : List Contact) :
    repliesFrom (net.answer target count) before asked = asked.flatMap fun c =>
      (net.table c.id).closest target (count c.id) := by
  induction asked generalizing before with
  | nil => rfl
  | cons c asked ih => rw [repliesFrom, ih, flatMap_cons]; rfl

/-! ### The state of a lookup -/

def heard (searcher target : ID) (count : ID → Nat) (k : Nat) (asked : List Contact) : List Contact :=
  (net.table searcher).closest target k ++ replies (net.answer target count) asked

structure Searching (searcher target : ID) (count : ID → Nat) (k : Nat) (s : Search) : Prop where
  settled : s.Settled searcher target k (net.heard searcher target count k s.asked)
  asked : ∀ c ∈ s.asked, c.id ∈ net.nodes

variable {net} {searcher : ID} {k alpha : Nat} {s s' : Search}

theorem mem_heard {c d : Contact} {asked : List Contact} (hd : d ∈ asked)
    (hc : c ∈ (net.table d.id).closest target (count d.id)) : c ∈ net.heard searcher target count k asked := by
  rw [heard, replies, repliesFrom_answer]
  exact mem_append.mpr (.inr (mem_flatMap.mpr ⟨d, hd, hc⟩))

theorem Searching.known (hsearcher : searcher ∈ net.nodes) (hs : net.Searching searcher target count k s) :
    ∀ c ∈ net.heard searcher target count k s.asked, c.id ∈ net.nodes := by
  intro c hc
  rw [heard, replies, repliesFrom_answer] at hc
  rcases mem_append.mp hc with hc | hc
  · exact net.closest_known hsearcher k c hc
  · obtain ⟨d, hd, hc⟩ := mem_flatMap.mp hc
    exact net.closest_known (hs.asked d hd) (count d.id) c hc

theorem Searching.shortlist (hsearcher : searcher ∈ net.nodes) (hs : net.Searching searcher target count k s) :
    ∀ c ∈ s.shortlist, c.id ∈ net.nodes :=
  fun c hc => hs.known hsearcher c ((takeNew_sublist _ _ _).subset (hs.settled.nearest.subset hc))

theorem searching_startLookup (hsearcher : searcher ∈ net.nodes) (target : ID) (count : ID → Nat) (k : Nat) :
    net.Searching searcher target count k ((net.table searcher).startLookup target k) where
  settled := by
    have hs := (net.table searcher).tracks_startLookup target k (net.answer target count)
    rwa [net.owner searcher hsearcher] at hs
  asked := nofun

theorem Searching.step (hsearcher : searcher ∈ net.nodes) (hs : net.Searching searcher target count k s)
    (hstep : s.step (net.answer target count) target k alpha = some s') : net.Searching searcher target count k s' where
  settled := Tracks.step hs.settled hstep
  asked := by
    intro c hc
    rw [(step_asked hstep).1] at hc
    rcases mem_append.mp hc with hc | hc
    · exact hs.asked c hc
    · exact hs.shortlist hsearcher c (mem_batch hc).1

/-! ### Progress -/

theorem Searching.front (hk : 0 < k) (hs : net.Searching searcher target count k s) {c : Contact}
    (hc : c ∈ net.heard searcher target count k s.asked) (hne : c.id ≠ searcher) :
    ∃ b, s.shortlist.head? = some b ∧ commonPrefix c.id target ≤ commonPrefix b.id target := by
  obtain ⟨d, hd, hid⟩ := key_mem_firsts hc (fun h => hne (mem_singleton.mp h))
  obtain ⟨b, hhead, hle⟩ := hs.settled.nearest.head?_le hk hd
  exact ⟨b, hhead, hid ▸ commonPrefix_le hle⟩

theorem Searching.front_longer (hk : 0 < k) (hsearcher : searcher ∈ net.nodes) (htarget : target ∈ net.nodes)
    (hne : searcher ≠ target) (hs : net.Searching searcher target count k s) :
    ∃ b, s.shortlist.head? = some b ∧ b.id ∈ net.nodes ∧ commonPrefix searcher target < commonPrefix b.id target := by
  obtain ⟨c, hc, hlonger⟩ := net.closest_longer hsearcher htarget hne hk
  have hself : c.id ≠ searcher := fun heq => absurd (heq ▸ hlonger) (Nat.lt_irrefl _)
  obtain ⟨b, hhead, hle⟩ := hs.front hk (mem_append.mpr (.inl hc)) hself
  exact ⟨b, hhead, hs.shortlist hsearcher b (mem_of_mem_head? hhead), hlonger.trans_le hle⟩

/-- Unless the front of the shortlist is the target, there is another round, after which it is closer to the target. --/
theorem Searching.progress (hk : 0 < k) (halpha : 0 < alpha) (hsearcher : searcher ∈ net.nodes)
    (htarget : target ∈ net.nodes) (hne : searcher ≠ target) (hcount : ∀ n ∈ net.nodes, 0 < count n)
    (hs : net.Searching searcher target count k s) {b : Contact} (hhead : s.shortlist.head? = some b)
    (hb : b.id ≠ target) :
    ∃ s' b', s.step (net.answer target count) target k alpha = some s' ∧ s'.shortlist.head? = some b' ∧
      commonPrefix b.id target < commonPrefix b'.id target := by
  obtain ⟨b₀, hhead₀, hnode, hfar⟩ := hs.front_longer hk hsearcher htarget hne
  obtain rfl := mem_unique hhead₀ hhead
  obtain ⟨c, hc, hlonger⟩ := net.closest_longer hnode htarget hb (hcount _ hnode)
  have hself : ∀ x : ID, commonPrefix searcher target < commonPrefix x target → x ≠ searcher :=
    fun x hlt heq => absurd (heq ▸ hlt) (Nat.lt_irrefl _)
  -- A reply of the front would have put a nearer contact there.
  have hunqueried : b₀.id ∉ s.queried := by
    intro hmem
    rw [hs.settled.books.queried, mem_append, mem_reverse, mem_singleton] at hmem
    obtain ⟨d, hd, hid⟩ := mem_map.mp (hmem.resolve_right (hself _ hfar))
    obtain ⟨b', hhead', hle⟩ := hs.front hk (mem_heard hd (hid ▸ hc)) (hself _ (hfar.trans hlonger))
    obtain rfl := mem_unique hhead' hhead
    exact absurd (hlonger.trans_le hle) (Nat.lt_irrefl _)
  have hbatch : b₀ ∈ s.batch alpha := by
    obtain ⟨rest, hshort⟩ := head?_eq_some_iff.mp hhead
    obtain ⟨j, rfl⟩ : ∃ j, alpha = j + 1 := ⟨alpha - 1, by omega⟩
    rw [batch, hshort, filter_cons_of_pos (by simpa using hunqueried), take_succ_cons]
    exact mem_cons_self
  cases hstep : s.step (net.answer target count) target k alpha with
  | none => rw [step_eq_none hstep] at hbatch; cases hbatch
  | some s' =>
    have hs' := hs.step hsearcher hstep
    have hasked : b₀ ∈ s'.asked := by
      rw [(step_asked hstep).1]
      exact mem_append.mpr (.inr hbatch)
    obtain ⟨b', hhead', hle⟩ := hs'.front hk (mem_heard hasked hc) (hself _ (hfar.trans hlonger))
    exact ⟨s', b', rfl, hhead', hlonger.trans_le hle⟩

theorem Searching.run (hsearcher : searcher ∈ net.nodes) (hs : net.Searching searcher target count k s)
    (alpha n : Nat) :
    net.Searching searcher target count k (s.run (net.answer target count) target k alpha n) := by
  induction n generalizing s with
  | zero => exact hs
  | succ n ih =>
    rw [Search.run]
    split
    · exact hs
    · next hstep => exact ih (hs.step hsearcher hstep)

theorem Searching.stays (hk : 0 < k) (hsearcher : searcher ∈ net.nodes) (hne : searcher ≠ target)
    (hs : net.Searching searcher target count k s) {b : Contact} (hhead : s.shortlist.head? = some b)
    (hb : b.id = target) (hstep : s.step (net.answer target count) target k alpha = some s') :
    ∃ b', s'.shortlist.head? = some b' ∧ b'.id = target := by
  have hs' := hs.step hsearcher hstep
  have hheard : b ∈ net.heard searcher target count k s'.asked := by
    have hold := (takeNew_sublist _ _ _).subset (hs.settled.nearest.subset (mem_of_mem_head? hhead))
    rw [heard, (step_asked hstep).1, replies_append, ← append_assoc]
    exact mem_append.mpr (.inl hold)
  obtain ⟨b', hhead', hle⟩ := hs'.front hk hheard (hb ▸ hne.symm)
  refine ⟨b', hhead', by_contra fun hother => ?_⟩
  rw [hb, commonPrefix_self] at hle
  exact absurd (commonPrefix_lt_of_ne hother) (Nat.not_lt.mpr hle)

/-- After `n` rounds the target is found, or the front has more than `n` bits in common with it. --/
theorem Searching.reaches (hk : 0 < k) (halpha : 0 < alpha) (hsearcher : searcher ∈ net.nodes)
    (htarget : target ∈ net.nodes) (hne : searcher ≠ target) (hcount : ∀ n ∈ net.nodes, 0 < count n)
    (hs : net.Searching searcher target count k s) (n : Nat) :
    ∃ b, (s.run (net.answer target count) target k alpha n).shortlist.head? = some b ∧
      (b.id = target ∨ n < commonPrefix b.id target) := by
  induction n with
  | zero =>
    obtain ⟨b, hhead, -, hlonger⟩ := hs.front_longer hk hsearcher htarget hne
    exact ⟨b, hhead, .inr (Nat.zero_lt_of_lt hlonger)⟩
  | succ n ih =>
    obtain ⟨b, hhead, hb⟩ := ih
    have hs := hs.run hsearcher alpha n
    rw [run_succ]
    by_cases hfound : b.id = target
    · cases hstep :
        (s.run (net.answer target count) target k alpha n).step (net.answer target count) target k alpha with
      | none => exact ⟨b, hhead, .inl hfound⟩
      | some s' =>
        obtain ⟨b', hhead', hb'⟩ := hs.stays hk hsearcher hne hhead hfound hstep
        exact ⟨b', hhead', .inl hb'⟩
    · obtain ⟨s', b', hstep, hhead', hlonger⟩ := hs.progress hk halpha hsearcher htarget hne hcount hhead hfound
      rw [hstep]
      exact ⟨b', hhead', .inr (Nat.lt_of_le_of_lt (hb.resolve_left hfound) hlonger)⟩

end Network

/-- The search of `lookup` after some of its rounds. --/
def RoutingTable.afterRounds (rt : RoutingTable) (target : ID) (k alpha : Int) (query : Query) (n : Nat) : Search :=
  (rt.startLookup target (rt.lookupK k)).run query target (rt.lookupK k) (lookupAlpha alpha) n

/-- In a network of honest nodes a lookup of 128 rounds finds its target. Until it is found there is another
    round, after which the first contact has a longer prefix in common with it. --/
theorem lookup_converges (net : Network) {searcher target : ID} (hsearcher : searcher ∈ net.nodes)
    (htarget : target ∈ net.nodes) (hne : target ≠ searcher) {count : ID → Nat}
    (hcount : ∀ n ∈ net.nodes, 1 ≤ count n) (k alpha : Int) {maxRounds : Int} (hrounds : 128 ≤ maxRounds) :
    ((net.table searcher).lookup target k alpha maxRounds (net.answer target count)).head?.map
      Contact.id = some target ∧
    ∀ n, ∃ b, ((net.table searcher).afterRounds target k alpha (net.answer target count) n).shortlist.head? = some b ∧
      (b.id = target ∨ ∃ s' b',
        ((net.table searcher).afterRounds target k alpha (net.answer target count) n).step
          (net.answer target count) target
          ((net.table searcher).lookupK k) (lookupAlpha alpha) = some s' ∧
        s'.shortlist.head? = some b' ∧ commonPrefix b.id target < commonPrefix b'.id target) := by
  have hk := (net.table searcher).lookupK_pos k
  have halpha := lookupAlpha_pos alpha
  have hs := Network.searching_startLookup hsearcher target count ((net.table searcher).lookupK k)
  constructor
  · obtain ⟨b, hhead, hb⟩ := hs.reaches hk halpha hsearcher htarget hne.symm hcount (lookupRounds maxRounds)
    have hfound : b.id = target := by
      refine hb.resolve_right fun hlt => ?_
      have hlong : 128 ≤ lookupRounds maxRounds := by rw [lookupRounds, if_neg (by omega)]; omega
      by_cases heq : b.id = target
      · rw [heq, commonPrefix_self] at hlt
        exact absurd (hlong.trans_lt hlt) (Nat.lt_irrefl _)
      · exact absurd (hlong.trans_lt (hlt.trans (commonPrefix_lt_of_ne heq))) (Nat.lt_irrefl _)
    rw [RoutingTable.lookup, RoutingTable.search, hhead, map_some, hfound]
  · intro n
    have hs := hs.run hsearcher (lookupAlpha alpha) n
    obtain ⟨b, hhead, -, -⟩ := hs.front_longer hk hsearcher htarget hne.symm
    refine ⟨b, hhead, ?_⟩
    by_cases hb : b.id = target
    · exact .inl hb
    · exact .inr (hs.progress hk halpha hsearcher htarget hne.symm hcount hhead hb)

/-! ### Three nodes -/

namespace Network.Sample
open RoutingTable.Sample

def nodes : Finset ID := {node 1, node 2, node 4}

def sightings (n : ID) : List Contact :=
  if n = node 1 then [contact 2, contact 4] else if n = node 2 then [contact 1, contact 4] else [contact 1]

def table (n : ID) : RoutingTable := (sightings n).foldl RoutingTable.update (newRoutingTable n 1)

theorem buckets_ne_nil : ∀ n ∈ nodes, ∀ m ∈ nodes, ∀ i ∈ (bucketIndex n m).toList, (table n).buckets i ≠ [] := by
  decide +kernel

def three : Network where
  nodes := nodes
  table := table
  owner := fun n _ => (RoutingTable.foldl_update (sightings n) (newRoutingTable n 1)).1
  known := by decide +kernel
  covers := fun n hn m hm i hi => buckets_ne_nil n hn m hm i (mem_toList.mpr hi)

end Network.Sample

open RoutingTable.Sample Network.Sample

theorem lookup_converges_three :
    ((three.table (node 4)).lookup (node 2) 1 1 128 (three.answer (node 2) fun _ => 1)).head?.map
      Contact.id = some (node 2) ∧
      (three.table (node 4)).closest (node 2) 1 = [contact 1] :=
  ⟨(lookup_converges three (by decide +kernel) (by decide +kernel) (by decide +kernel) (fun _ _ => Nat.le_refl 1) 1 1
    (by decide)).1, by decide +kernel⟩

end SyncSwarm.Dht
