import SyncSwarm.Theorems.Dht.Metric

/-! The routing table over any history of sightings. -/

namespace SyncSwarm.Dht
open Lib ID List

namespace RoutingTable

/-! ### The stored contacts -/

theorem mem_contacts {rt : RoutingTable} {c : Contact} : c ∈ rt.contacts ↔ ∃ i, c ∈ rt.buckets i := by
  rw [contacts, mem_flatMap]
  constructor
  · rintro ⟨i, -, hc⟩
    exact ⟨i, hc⟩
  · rintro ⟨i, hc⟩
    exact ⟨i, mem_range.mpr (bucketIndex_lt (rt.placed i c hc)), hc⟩

theorem nodup_contacts (rt : RoutingTable) : (rt.contacts.map Contact.id).Nodup := by
  rw [contacts, map_flatMap, nodup_flatMap]
  refine ⟨fun i _ => rt.distinct i, nodup_range.imp fun {i j} hne => ?_⟩
  intro x hi hj
  obtain ⟨c, hc, rfl⟩ := mem_map.mp hi
  obtain ⟨d, hd, heq⟩ := mem_map.mp hj
  have hsome : some i = some j := by rw [← rt.placed i c hc, ← rt.placed j d hd, heq]
  exact hne (Option.some.inj hsome)

theorem ne_self_of_mem {rt : RoutingTable} {c : Contact} (h : c ∈ rt.contacts) : c.id ≠ rt.self := by
  obtain ⟨i, hc⟩ := mem_contacts.mp h
  intro heq
  have hplaced := rt.placed i c hc
  rw [bucketIndex_eq_none.mpr heq.symm] at hplaced
  cases hplaced

theorem nodup_distances {l : List Contact} (h : (l.map Contact.id).Nodup) (target : ID) :
    (l.map fun c => distance target c.id).Nodup := by
  have hmap := h.map (f := distance target) fun _ _ => distance_injective
  rwa [map_map] at hmap

theorem nearest_sorted {l : List Contact} (h : (l.map Contact.id).Nodup) (target : ID) (n : Nat) :
    Nearest (fun c => distance target c.id) n l ((sortSlice (fun a b => closer target a.id b.id) l).take n) :=
  nearest_sortSlice (fun a b => closer_eq target a.id b.id) (nodup_distances h target) n

theorem closest_nearest (rt : RoutingTable) (target : ID) (count : Nat) :
    Nearest (fun c => distance target c.id) count rt.contacts (rt.closest target count) := by
  rw [closest, if_pos (Int.natCast_nonneg count), Int.toNat_natCast]
  exact nearest_sorted rt.nodup_contacts target count

theorem closest_all (rt : RoutingTable) (target : ID) {count : Int} (h : count < 0) :
    Nearest (fun c => distance target c.id) rt.contacts.length rt.contacts (rt.closest target count) := by
  have hall := nearest_sorted rt.nodup_contacts target rt.contacts.length
  rw [closest, if_neg (Int.not_le.mpr h)]
  rwa [take_of_length_le (perm_sortSlice _ _).length_eq.le] at hall

/-! ### Histories -/

/-- The contacts that belong in the bucket. --/
def inRange (self : ID) (i : Nat) (c : Contact) : Bool :=
  c.id ≠ self ∧ c.id.isZero = false ∧ bucketIndex self c.id = some i

theorem update_cases (rt : RoutingTable) (c : Contact) :
    (rt.update c).self = rt.self ∧ (rt.update c).k = rt.k ∧
      ∀ i, (rt.update c).buckets i = if inRange rt.self i c then sight Contact.id rt.k (rt.buckets i) c else
        rt.buckets i := by
  unfold update
  split
  next h =>
    refine ⟨rfl, rfl, fun i => (if_neg ?_).symm⟩
    rcases h with h | h
    · simp [inRange, h]
    · simp [inRange, h]
  next h =>
    obtain ⟨hself, hzero⟩ := not_or.mp h
    split
    · next hnone => exact absurd (bucketIndex_eq_none.mp hnone).symm hself
    next bi hbi =>
      refine ⟨rfl, rfl, fun i => ?_⟩
      by_cases hi : i = bi
      · have hin : inRange rt.self i c = true := by simp [inRange, hself, hzero, hbi, hi]
        simp only [hi, if_true] at hin ⊢
        rw [if_pos hin]
      · have hin : inRange rt.self i c = false := by simp [inRange, hbi, Ne.symm hi]
        rw [hin]
        exact if_neg hi

theorem foldl_update (history : List Contact) (rt : RoutingTable) :
    (history.foldl update rt).self = rt.self ∧ (history.foldl update rt).k = rt.k ∧
      ∀ i, (history.foldl update rt).buckets i =
        (history.filter (inRange rt.self i)).foldl (sight Contact.id rt.k) (rt.buckets i) := by
  induction history generalizing rt with
  | nil => exact ⟨rfl, rfl, fun i => rfl⟩
  | cons c history ih =>
    obtain ⟨hself, hk, hbuckets⟩ := rt.update_cases c
    obtain ⟨ihself, ihk, ihbuckets⟩ := ih (rt.update c)
    refine ⟨ihself.trans hself, ihk.trans hk, fun i => ?_⟩
    rw [foldl_cons, ihbuckets i, hself, hk, hbuckets i]
    cases hin : inRange rt.self i c with
    | true => rw [filter_cons_of_pos hin, foldl_cons, if_pos rfl]
    | false => rw [filter_cons_of_neg (by simp [hin]), if_neg (by simp)]

end RoutingTable

open RoutingTable

/-- After any sightings every contact is in the bucket of its ID, no two contacts have one ID and none has the
    owner's or the zero ID. Each bucket holds the contacts of its range that were sighted last, the oldest first
    and as they were sighted last; `closest` gives the nearest of all of them. --/
theorem table_after (self : ID) (k : Int) (history : List Contact) :
    let rt := history.foldl update (newRoutingTable self k)
    (∀ i, ∀ c ∈ rt.buckets i, bucketIndex self c.id = some i) ∧
    (rt.contacts.map Contact.id).Nodup ∧
    (∀ c, c ∈ rt.contacts ↔ ∃ i, c ∈ rt.buckets i) ∧
    (∀ c ∈ rt.contacts, c.id ≠ self ∧ c.id.isZero = false) ∧
    (∀ i, rt.buckets i = (latest Contact.id (history.filter (inRange self i))).rtake (newRoutingTable self k).k) ∧
    (∀ target, ∀ count : Nat, Nearest (fun c => distance target c.id) count rt.contacts (rt.closest target count)) ∧
    ∀ target, ∀ count < 0,
      Nearest (fun c => distance target c.id) rt.contacts.length rt.contacts (rt.closest target count) := by
  intro rt
  obtain ⟨hself, -, hbuckets⟩ := foldl_update history (newRoutingTable self k)
  have hself : rt.self = self := hself
  refine ⟨fun i c hc => hself ▸ rt.placed i c hc, rt.nodup_contacts, fun c => mem_contacts, fun c hc => ⟨?_, ?_⟩,
    fun i => ?_, rt.closest_nearest, fun target count => rt.closest_all target⟩
  · exact hself ▸ ne_self_of_mem hc
  · obtain ⟨i, hi⟩ := mem_contacts.mp hc
    exact rt.nonzero i c hi
  · rw [hbuckets i]
    exact foldl_sight (newRoutingTable self k).k_pos _

end SyncSwarm.Dht
