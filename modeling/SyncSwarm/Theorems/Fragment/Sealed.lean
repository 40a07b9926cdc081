import SyncSwarm.Fragment.Fragment
import SyncSwarm.Lib.Except

/-! Sealed fragments: what the fragmenters produce, and what the reassemblers make of the parts they
    hold. -/

namespace SyncSwarm.Fragment
open Lib Protocol List

/-- The opener opens what the sealer seals under the same associated data; without a key both are absent. --/
def Undoes : Option Sealer → Option Sealer → Prop
  | none, none => True
  | some opener, some sealer =>
    ∀ draw plain a sealed, sealer.sealBytes draw plain a = .ok sealed → opener.openBytes sealed a = .ok plain
  | _, _ => False

/-- What a fragment's payload opens to; without a key it is the part itself. --/
def Opens (opener : Option Sealer) (a payload plain : Bytes) : Prop :=
  match opener with
  | some opener => opener.openBytes payload a = .ok plain
  | none => payload = plain

structure FragmentAt (opener : Option Sealer) (id : TransferID) (parts : List Bytes) (i : Nat) (frag : Fragment) :
    Prop where
  index : frag.index = UInt32.ofNat i
  total : frag.total = UInt32.ofNat parts.length
  opens : ∃ part, parts[i]? = some part ∧
    Opens opener (aad id (UInt32.ofNat i) (UInt32.ofNat parts.length)) frag.payload part

structure FragmentsOf (opener : Option Sealer) (id : TransferID) (parts : List Bytes) (frags : List Fragment) :
    Prop where
  length : frags.length = parts.length
  place : ∀ i frag, frags[i]? = some frag → FragmentAt opener id parts i frag

variable {s : Sealer} {draw : Nat} {id : TransferID} {what : String} {parts : List Bytes} {frags : List Fragment}
  {rs : ReedSolomon} {data : Bytes} {f : RSFragmenter}

variable {total : UInt32} {i : Nat} {opener : Option Sealer} {r : Reassembler} {ps : List Bytes} {shards : List Bytes}
  {origLen : Nat}

theorem sealParts_cons {part : Bytes} (h : sealParts s draw id what total i (part :: parts) = .ok frags) :
    ∃ payload rest, s.sealBytes (draw + i) part (aad id (UInt32.ofNat i) total) = .ok payload ∧
      sealParts s draw id what total (i + 1) parts = .ok rest ∧
      frags = { transferID := id, index := UInt32.ofNat i, total, payload } :: rest := by
  rw [sealParts] at h
  split at h
  · cases h
  next payload hseal =>
    obtain ⟨rest, hrest, rfl⟩ := map_eq_ok.mp h
    exact ⟨payload, rest, hseal, hrest, rfl⟩

theorem sealParts_spec (h : sealParts s draw id what total i parts = .ok frags) :
    frags.length = parts.length ∧ ∀ j frag, frags[j]? = some frag → ∃ part, parts[j]? = some part ∧
      frag.index = UInt32.ofNat (i + j) ∧ frag.total = total ∧
      s.sealBytes (draw + (i + j)) part (aad id (UInt32.ofNat (i + j)) total) = .ok frag.payload := by
  induction parts generalizing i frags with
  | nil =>
    cases h
    exact ⟨rfl, fun j frag hj => by simp at hj⟩
  | cons part parts ih =>
    obtain ⟨payload, rest, hseal, hrest, rfl⟩ := sealParts_cons h
    obtain ⟨hlen, hplace⟩ := ih hrest
    refine ⟨by simp [hlen], fun j frag hj => ?_⟩
    cases j with
    | zero =>
      obtain rfl : _ = frag := Option.some.inj hj
      exact ⟨part, rfl, rfl, rfl, hseal⟩
    | succ j =>
      have hij : i + 1 + j = i + (j + 1) := by omega
      rw [← hij]
      exact hplace j frag hj

theorem fragmentsOf_sealParts (hopen : Undoes opener (some s))
    (h : sealParts s draw id what (UInt32.ofNat parts.length) 0 parts = .ok frags) :
    FragmentsOf opener id parts frags := by
  obtain ⟨hlen, hplace⟩ := sealParts_spec h
  refine ⟨hlen, fun i frag hi => ?_⟩
  obtain ⟨part, hpart, hindex, htotal, hseal⟩ := hplace i frag hi
  rw [Nat.zero_add] at hindex hseal
  refine ⟨hindex, htotal, part, hpart, ?_⟩
  cases opener with
  | none => cases hopen
  | some o => exact hopen _ _ _ _ hseal

/-! ### Sealed chunks -/

theorem openAll_ok_iff {is : List Nat} :
    r.openAll id is = .ok ps ↔ List.Forall₂
      (fun i p => r.sealer.openBytes ((r.parts.get? (UInt32.ofNat i)).getD [])
        (aad id (UInt32.ofNat i) r.total) = .ok p)
      is ps := by
  induction is generalizing ps with
  | nil => simp [Reassembler.openAll, eq_comm]
  | cons i is ih =>
    rw [Reassembler.openAll, List.forall₂_cons_left_iff]
    split
    next e he =>
      constructor
      · intro h
        cases h
      · rintro ⟨p, ps', hp, -⟩
        rw [he] at hp
        cases hp
    next plain hplain =>
      simp only [← ih, map_eq_ok, hplain]
      constructor
      · rintro ⟨qs, hqs, rfl⟩
        exact ⟨plain, qs, rfl, hqs, rfl⟩
      · rintro ⟨p, qs, hp, hqs, rfl⟩
        cases hp
        exact ⟨qs, hqs, rfl⟩

theorem openAll_range_ok_iff {n : Nat} :
    r.openAll id (List.range n) = .ok ps ↔ ps.length = n ∧ ∀ i p, ps[i]? = some p →
      r.sealer.openBytes ((r.parts.get? (UInt32.ofNat i)).getD []) (aad id (UInt32.ofNat i) r.total) = .ok p := by
  rw [openAll_ok_iff, List.forall₂_iff_get]
  constructor
  · rintro ⟨hlen, h⟩
    refine ⟨by simpa using hlen.symm, fun i p hp => ?_⟩
    obtain ⟨hi, rfl⟩ := List.getElem?_eq_some_iff.mp hp
    simpa using h i (hlen ▸ hi) hi
  · rintro ⟨hlen, h⟩
    refine ⟨by simpa using hlen.symm, fun i _ hi => ?_⟩
    simpa using h i _ (getElem?_eq_getElem hi)

/-! ### Sealed shards -/

structure Remains (shards held : List Bytes) : Prop where
  length : held.length = shards.length
  place : ∀ i < shards.length, held[i]? = some [] ∨ held[i]? = shards[i]?

/-- The code: there are at most 65536 shards and none is empty, and as many of them as there are data shards
    give any leading part of the data back. --/
structure ReedSolomon.Lawful (rs : ReedSolomon) : Prop where
  few : ∀ {d p}, rs.new d p = .ok () → d + p ≤ 65536
  length : ∀ {d p data shards}, rs.shards d p data = .ok shards → shards.length = d + p
  nonempty : ∀ {d p data shards}, rs.shards d p data = .ok shards → [] ∉ shards
  recover : ∀ {d p data shards held}, rs.shards d p data = .ok shards → Remains shards held →
    d ≤ held.countP (· ≠ []) → ∀ n ≤ data.length,
      ∃ full, rs.reconstruct d p held = .ok full ∧ rs.join d p full n = .ok (data.take n)

theorem ReedSolomon.new_of_shards {d p : Nat}
    (h : rs.shards d p data = .ok shards) : rs.new d p = .ok () := by
  simp only [ReedSolomon.shards, bind_eq_ok, mapError_eq_ok] at h
  obtain ⟨_, hnew, -⟩ := h
  exact hnew

theorem RSFragmenter.fragment_ok (hlen : f.dataShards ≤ data.length)
    (hshards : rs.shards f.dataShards.toNat f.parityShards.toNat data = .ok shards)
    (hfrags : sealParts f.sealer draw id "shard" (UInt32.ofNat shards.length) 0 shards = .ok frags) :
    f.fragment rs draw id data = .ok (frags, data.length) := by
  rw [RSFragmenter.fragment, if_neg (Int.not_lt.mpr hlen)]
  exact bind_eq_ok.mpr ⟨shards, hshards, bind_eq_ok.mpr ⟨frags, hfrags, rfl⟩⟩

theorem RSFragmenter.fragment_seals (h : f.fragment rs draw id data = .ok (frags, origLen)) : origLen = data.length ∧
      ∃ shards, rs.shards f.dataShards.toNat f.parityShards.toNat data = .ok shards ∧
        sealParts f.sealer draw id "shard" (UInt32.ofNat shards.length) 0 shards = .ok frags := by
  rw [RSFragmenter.fragment] at h
  split at h
  · simp only [bind_eq_ok, throw_eq_ok, false_and, exists_false] at h
  · simp only [bind_eq_ok, pure_eq_ok, Prod.mk.injEq] at h
    obtain ⟨shards, hshards, frags', hseal, rfl, rfl⟩ := h
    exact ⟨rfl, shards, hshards, hseal⟩

theorem RSFragmenter.fragment_spec (hopen : Undoes opener (some f.sealer))
    (h : f.fragment rs draw id data = .ok (frags, origLen)) : origLen = data.length ∧
      ∃ shards, rs.shards f.dataShards.toNat f.parityShards.toNat data = .ok shards ∧
        FragmentsOf opener id shards frags := by
  obtain ⟨hlen, shards, hshards, hseal⟩ := RSFragmenter.fragment_seals h
  exact ⟨hlen, shards, hshards, fragmentsOf_sealParts hopen hseal⟩

namespace RSReassembler

variable {r : RSReassembler} {s : Sealer} {id : TransferID}

theorem plain?_eq_some {i : Nat} {plain : Bytes} :
    r.plain? s id i = some plain ↔ ∃ sealed, r.parts.get? (UInt32.ofNat i) = some sealed ∧
      s.openBytes sealed (aad id (UInt32.ofNat i) r.total) = .ok plain := by
  simp only [plain?, Option.bind_eq_some_iff, toOption_eq_some]

theorem exists_plain (h : 0 < (r.openShards s id).2) : ∃ i plain, r.plain? s id i = some plain := by
  obtain ⟨found, hfound, hsome⟩ := countP_pos_iff.mp h
  obtain ⟨i, -, rfl⟩ := mem_map.mp hfound
  exact ⟨i, Option.isSome_iff_exists.mp hsome⟩

theorem reconstruct_ok_iff {rs : ReedSolomon} {data : Bytes}
    (hs : r.sealer = some s) : r.reconstruct rs id = .ok data ↔
      rs.new r.dataShards r.parityShards = .ok () ∧ r.dataShards ≤ (r.openShards s id).2 ∧
        ∃ full, rs.reconstruct r.dataShards r.parityShards (r.openShards s id).1 = .ok full ∧
          rs.join r.dataShards r.parityShards full r.originalLen = .ok data := by
  simp only [reconstruct, hs, bind_eq_ok, mapError_eq_ok, pure_eq_ok]
  constructor
  · rintro ⟨_, hnew, _, rfl, hrest⟩
    split at hrest
    · simp only [bind_eq_ok, throw_eq_ok, false_and, exists_false] at hrest
    next hfew =>
      simp only [bind_eq_ok, mapError_eq_ok] at hrest
      obtain ⟨full, hrec, hjoin⟩ := hrest
      exact ⟨hnew, Nat.not_lt.mp hfew, full, hrec, hjoin⟩
  · rintro ⟨hnew, hvalid, full, hrec, hjoin⟩
    refine ⟨(), hnew, _, rfl, ?_⟩
    rw [if_neg (Nat.not_lt.mpr hvalid)]
    simp only [bind_eq_ok, mapError_eq_ok]
    exact ⟨full, hrec, hjoin⟩

/-- Shards that open do so to the right ones, and no shard is empty: then those that opened are those that
    remain. --/
theorem remains_openShards {shards : List Bytes} (hne : [] ∉ shards)
    (htotal : r.total.toNat = shards.length)
    (hplain : ∀ i < shards.length, r.plain? s id i = none ∨ r.plain? s id i = shards[i]?) :
    Remains shards (r.openShards s id).1 ∧ (r.openShards s id).2 = (r.openShards s id).1.countP (· ≠ []) := by
  refine ⟨⟨by simp [openShards, htotal], fun i hi => ?_⟩, ?_⟩
  · have hi' : i < r.total.toNat := htotal ▸ hi
    rcases hplain i hi with hnone | hsome
    · exact .inl (by simp [openShards, hi', hnone])
    · exact .inr (by simp [openShards, hi', hsome, getElem?_eq_getElem hi])
  · simp only [openShards, countP_map]
    refine countP_congr fun i hi => ?_
    have hi' : i < shards.length := htotal ▸ mem_range.mp hi
    rcases hplain i hi' with hnone | hsome
    · simp [hnone]
    · have hshard : shards[i] ≠ [] := fun h => hne (h ▸ getElem_mem hi')
      simp [hsome, getElem?_eq_getElem hi', hshard]

theorem reconstruct_of_plain {rs : ReedSolomon} (hrs : rs.Lawful) {data : Bytes} {shards : List Bytes} {n : Nat}
    (hs : r.sealer = some s) (hshards : rs.shards r.dataShards r.parityShards data = .ok shards)
    (htotal : r.total.toNat = shards.length)
    (hplain : ∀ i < shards.length, r.plain? s id i = none ∨ r.plain? s id i = shards[i]?)
    (hvalid : r.dataShards ≤ (r.openShards s id).2) (hlen : r.originalLen = n) (hn : n ≤ data.length) :
    r.reconstruct rs id = .ok (data.take n) := by
  obtain ⟨hremains, hcount⟩ := remains_openShards (hrs.nonempty hshards) htotal hplain
  obtain ⟨full, hrec, hjoin⟩ := hrs.recover hshards hremains (hcount ▸ hvalid) n hn
  exact (reconstruct_ok_iff hs).mpr ⟨ReedSolomon.new_of_shards hshards, hvalid, full, hrec, hlen ▸ hjoin⟩

end RSReassembler
end SyncSwarm.Fragment
