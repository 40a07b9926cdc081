import SyncSwarm.Routing.Planner
import SyncSwarm.Lib.Except

/-! What the planner's paths are made of: relays that may carry traffic, and the destination at the end. -/

namespace SyncSwarm.Routing
open Lib Discovery List

variable {net : Net} {rng : Rng} {dest : Peer} {relays picked ordered : List Peer} {opt : PathOptions}

theorem mem_eligible {r : Peer} : r ∈ eligible dest relays ↔ r ∈ relays ∧ r.usable ∧ r.id ≠ dest.id := by
  simp [eligible]

theorem perm_sorted (peers : List Peer) : (sorted peers).Perm peers := perm_insertionSort _ peers

theorem perm_tierOrder (peers : List Peer) : (tierOrder net rng peers opt).Perm peers := by
  have hmain := perm_sorted (peers.filter fun r => !opt.deprioritize (net.host r.address))
  refine (((rng.perm _ _ _).append (rng.perm _ _ _)).append (rng.perm _ _ _)).trans ?_
  rw [take_append_drop]
  refine (hmain.append_right _).trans (perm_append_comm.trans ?_)
  exact filter_append_perm _ peers

section selectDiverse
variable {n : Nat} {destAddr : String}

theorem selectDiverse_subset : selectDiverse net ordered n destAddr ⊆ ordered :=
  append_subset.mpr ⟨(takeNew_sublist _ _ _).subset, (takeNew_sublist _ _ _).subset⟩

theorem length_selectDiverse_le : (selectDiverse net ordered n destAddr).length ≤ n := by
  rw [selectDiverse, length_append, length_takeNew, length_takeNew]
  omega

theorem length_selectDiverse
    (h : n ≤ countNew (fun r : Peer => subnetKey net r.address) [subnetKey net destAddr] ordered) :
    (selectDiverse net ordered n destAddr).length = n := by
  rw [countNew_eq] at h
  refine Nat.le_antisymm length_selectDiverse_le ?_
  rw [selectDiverse, length_append, length_takeNew]
  omega

theorem selectDiverse_ne_nil (hn : 0 < n) (hne : ordered ≠ []) : selectDiverse net ordered n destAddr ≠ [] := by
  intro h
  rw [selectDiverse] at h
  obtain ⟨hpicked, hfill⟩ := append_eq_nil_iff.mp h
  rw [hpicked] at hfill
  obtain ⟨r, rest, rfl⟩ := exists_cons_of_ne_nil hne
  simp [takeNew, Nat.ne_of_gt hn] at hfill

end selectDiverse

section biasExit
variable {exitNear : List String}

/-- What becomes of the hops that were picked: they stay, and then the last one is near the destination if any relay
    is; or the last one changes places with one that is; or one that was not picked takes its place. --/
inductive Biased (picked ordered : List Peer) (exitNear : List String) : List Peer → Prop where
  | kept : (picked ≠ [] → (∃ r ∈ ordered, r.id ∈ exitNear) → ∃ last, picked.getLast? = some last ∧ last.id ∈ exitNear) →
    Biased picked ordered exitNear picked
  | swapped {front mid : List Peer} {near last : Peer} : picked = front ++ near :: (mid ++ [last]) →
    near.id ∈ exitNear →
    Biased picked ordered exitNear (front ++ last :: (mid ++ [near]))
  | replaced {front : List Peer} {near last : Peer} : picked = front ++ [last] → near ∈ ordered → near.id ∈ exitNear →
    near.id ∉ picked.map Peer.id → (∀ r ∈ picked, r.id ∉ exitNear) → Biased picked ordered exitNear (front ++ [near])

theorem set_swap {α : Type} (front mid : List α) (near last : α) :
    ((front ++ near :: (mid ++ [last])).set front.length last).set
      ((front ++ near :: (mid ++ [last])).length - 1) near =
      front ++ last :: (mid ++ [near]) := by
  have hplace : (front ++ near :: (mid ++ [last])).length - 1 = (front ++ last :: mid).length := by simp
  rw [set_append_right _ _ (Nat.le_refl _), Nat.sub_self, set_cons_zero, hplace,
    show front ++ last :: (mid ++ [last]) = (front ++ last :: mid) ++ [last] by simp,
    set_append_right _ _ (Nat.le_refl _), Nat.sub_self]
  simp

theorem getLast?_middle {α : Type} (front mid : List α) (a last : α) :
    (front ++ a :: (mid ++ [last])).getLast? = some last := by
  rw [← cons_append, ← append_assoc, getLast?_concat]

theorem biased_biasExit : Biased picked ordered exitNear (biasExit picked ordered exitNear) := by
  rw [biasExit]
  split
  · next hnil => exact .kept fun hne => absurd (getLast?_eq_none_iff.mp hnil) hne
  next last hlast =>
    obtain ⟨front, hfront⟩ := getLast?_eq_some_iff.mp hlast
    split
    next hnear =>
      refine .kept fun _ ⟨r, _, hr⟩ => ?_
      rcases hnear with hnil | hnear
      · exact absurd hr (length_eq_zero_iff.mp hnil ▸ not_mem_nil)
      · exact ⟨last, hlast, hnear⟩
    next hfar =>
      cases hpicked : picked.find? (·.id ∈ exitNear) with
      | some near =>
        obtain ⟨hnear, before, after, hsplit, hbefore⟩ := find?_eq_some_iff_append.mp hpicked
        have hnear : near.id ∈ exitNear := of_decide_eq_true hnear
        have hidx : picked.findIdx (·.id ∈ exitNear) = before.length := by
          rw [hsplit, findIdx_append, if_neg, findIdx_cons, decide_eq_true hnear, cond_true, Nat.zero_add]
          intro hlt
          obtain ⟨r, hr, hr'⟩ := findIdx_lt_length.mp hlt
          exact absurd hr' (by simpa using hbefore r hr)
        rcases eq_nil_or_concat after with rfl | ⟨mid, r, rfl⟩
        · -- The one that is near would be the last.
          rw [hsplit, getLast?_concat] at hlast
          exact absurd (.inr (Option.some.inj hlast ▸ hnear)) hfar
        · rw [concat_eq_append] at hsplit
          rw [hsplit, getLast?_middle] at hlast
          cases hlast
          dsimp only
          rw [hidx, hsplit, set_swap]
          exact .swapped rfl hnear
      | none =>
        have hnone : ∀ r ∈ picked, r.id ∉ exitNear := by simpa using hpicked
        cases hother : ordered.find? fun r => r.id ∈ exitNear ∧ r.id ∉ picked.map Peer.id with
        | some near =>
          have hfound := find?_some hother
          obtain ⟨hnear, hout⟩ := of_decide_eq_true hfound
          dsimp only
          rw [hfront, length_append, length_singleton, Nat.add_sub_cancel,
            set_append_right _ _ (Nat.le_refl _), Nat.sub_self]
          rw [hfront] at hout hnone
          exact .replaced rfl (mem_of_find?_eq_some hother) hnear hout hnone
        | none =>
          refine .kept fun _ ⟨r, hr, hnear⟩ => ?_
          have hin : r.id ∈ picked.map Peer.id := by
            by_contra hout
            exact find?_eq_none.mp hother r hr (decide_eq_true ⟨hnear, hout⟩)
          obtain ⟨r', hr', hid⟩ := mem_map.mp hin
          exact absurd (hid ▸ hnear) (hnone r' hr')

namespace Biased
variable {out : List Peer}

theorem perm_or_replaced (h : Biased picked ordered exitNear out) : out.Perm picked ∨
    ∃ front last near, picked = front ++ [last] ∧ out = front ++ [near] ∧ near ∈ ordered ∧ near.id ∈ exitNear ∧
      near.id ∉ picked.map Peer.id ∧ ∀ r ∈ picked, r.id ∉ exitNear := by
  cases h with
  | kept => exact .inl (List.Perm.refl _)
  | @swapped front mid near last hsplit =>
    refine .inl (hsplit ▸ (perm_append_left_iff front).mpr ?_)
    calc List.Perm (last :: (mid ++ [near])) (last :: near :: mid) :=
      List.Perm.cons last (perm_append_singleton near mid)
      List.Perm _ (near :: last :: mid) := List.Perm.swap near last mid
      List.Perm _ (near :: (mid ++ [last])) := List.Perm.cons near (perm_append_singleton last mid).symm
  | @replaced front near last hsplit hnear hid hout hfar =>
    exact .inr ⟨front, last, near, hsplit, rfl, hnear, hid, hout, hfar⟩

theorem length_eq (h : Biased picked ordered exitNear out) : out.length = picked.length := by
  rcases h.perm_or_replaced with hperm | ⟨front, last, near, hpicked, rfl, -⟩
  · exact hperm.length_eq
  · rw [hpicked, length_append, length_append]
    rfl

theorem mem (h : Biased picked ordered exitNear out) {r : Peer} (hr : r ∈ out) : r ∈ picked ∨ r ∈ ordered := by
  rcases h.perm_or_replaced with hperm | ⟨front, last, near, hpicked, rfl, hnear, -⟩
  · exact .inl (hperm.subset hr)
  · rcases mem_append.mp hr with hr | hr
    · exact .inl (hpicked ▸ mem_append_left _ hr)
    · exact .inr (mem_singleton.mp hr ▸ hnear)

theorem exit (h : Biased picked ordered exitNear out) (hne : picked ≠ []) (hnear : ∃ r ∈ ordered, r.id ∈ exitNear) :
    ∃ last, out.getLast? = some last ∧ last.id ∈ exitNear := by
  cases h with
  | kept hkept => exact hkept hne hnear
  | @swapped front mid near last hsplit hid => exact ⟨near, getLast?_middle _ _ _ _, hid⟩
  | @replaced front near last hsplit _ hid => exact ⟨near, getLast?_concat, hid⟩

theorem nodup_ids (h : Biased picked ordered exitNear out) (hids : (picked.map Peer.id).Nodup) :
    (out.map Peer.id).Nodup := by
  rcases h.perm_or_replaced with hperm | ⟨front, last, near, hpicked, rfl, -, -, hout, -⟩
  · exact (hperm.map Peer.id).nodup_iff.mpr hids
  · rw [hpicked, map_append] at hids hout
    rw [map_append, nodup_append] at *
    refine ⟨hids.1, nodup_singleton _, fun a ha b hb heq => hout ?_⟩
    obtain rfl := mem_singleton.mp hb
    exact mem_append_left _ (heq ▸ ha)

end Biased

end biasExit

/-! ### Paths -/

theorem candidates_ok {hopCount : Int} {peers : List Peer} (h : candidates dest relays hopCount = .ok peers) :
    peers = eligible dest relays ∧ 0 ≤ hopCount ∧ (0 < hopCount → peers ≠ []) := by
  rw [candidates] at h
  split at h
  · cases h
  · split at h
    · cases h
    next hcount =>
      split at h
      · cases h
      next hfew =>
        cases h
        refine ⟨rfl, Int.not_lt.mp hcount, fun hpos hnil => hfew ⟨hpos, ?_⟩⟩
        rw [hnil]
        rfl

theorem candidates_eq {hopCount : Int} (hcount : 0 ≤ hopCount) (hne : 0 < hopCount → eligible dest relays ≠ []) :
    candidates dest relays hopCount = if dest.id = "" ∨ dest.pubKey.length = 0 then .error errNoDestination else
      .ok (eligible dest relays) := by
  have hsome : ¬(0 < hopCount ∧ (eligible dest relays).length = 0) := fun h => hne h.1 (length_eq_zero_iff.mp h.2)
  rw [candidates, if_neg (Int.not_lt.mpr hcount), if_neg hsome]

/-- The relays on the paths of `BuildPathTiered`. --/
def planned (net : Net) (rng : Rng) (dest : Peer) (relays : List Peer) (hopCount : Int) (opt : PathOptions) :
    List Peer :=
  biasExit (selectDiverse net (tierOrder net rng (eligible dest relays) opt)
    (min hopCount.toNat (eligible dest relays).length)
    dest.address) (tierOrder net rng (eligible dest relays) opt) opt.exitNear

theorem buildPathTiered_eq {hopCount : Int} (hcount : 0 ≤ hopCount) (hne : 0 < hopCount → eligible dest relays ≠ []) :
    buildPathTiered net rng dest relays hopCount opt =
      if dest.id = "" ∨ dest.pubKey.length = 0 then .error errNoDestination
      else .ok (pathOf (planned net rng dest relays hopCount opt) dest) := by
  rw [buildPathTiered, candidates_eq hcount hne]
  split <;> rfl

theorem mem_planned {hopCount : Int} {r : Peer} (h : r ∈ planned net rng dest relays hopCount opt) :
    r ∈ eligible dest relays := by
  rcases biased_biasExit.mem h with h | h
  · exact (perm_tierOrder _).subset (selectDiverse_subset h)
  · exact (perm_tierOrder _).subset h

/-- A path leads over relays to the destination, over one at least when there is to be any, and over as many as are to
    be when there are enough subnets. --/
structure PathOver (net : Net) (dest : Peer) (relays : List Peer) (hopCount : Int) (picked : List Peer) : Prop where
  relay : ∀ r ∈ picked, r ∈ relays ∧ r.usable ∧ r.id ≠ dest.id
  length_le : (picked.length : Int) ≤ hopCount
  nonempty : 0 < hopCount → picked ≠ []
  diverse : hopCount ≤ countNew (fun r : Peer => subnetKey net r.address) [subnetKey net dest.address]
    (eligible dest relays) →
    (picked.length : Int) = hopCount

theorem buildPathTiered_ok {hopCount : Int} {path : List Hop}
    (h : buildPathTiered net rng dest relays hopCount opt = .ok path) :
    path = pathOf (planned net rng dest relays hopCount opt) dest ∧
      PathOver net dest relays hopCount (planned net rng dest relays hopCount opt) := by
  simp only [buildPathTiered, bind_eq_ok, pure_eq_ok] at h
  obtain ⟨peers, hpeers, rfl⟩ := h
  obtain ⟨rfl, hcount, hne⟩ := candidates_ok hpeers
  have hperm : (tierOrder net rng (eligible dest relays) opt).Perm (eligible dest relays) := perm_tierOrder _
  refine ⟨rfl, fun r hr => mem_eligible.mp (mem_planned hr), ?_, fun hpos hnil => ?_, fun hmany => ?_⟩
  · rw [planned, biased_biasExit.length_eq]
    have hle : (selectDiverse net (tierOrder net rng (eligible dest relays) opt)
      (min hopCount.toNat (eligible dest relays).length)
      dest.address).length ≤ _ := length_selectDiverse_le
    omega
  · have hlen := congrArg List.length hnil
    rw [planned, biased_biasExit.length_eq] at hlen
    refine selectDiverse_ne_nil ?_ ?_ (length_eq_zero_iff.mp hlen)
    · have := length_pos_iff.mpr (hne hpos)
      omega
    · intro hnone
      rw [hnone] at hperm
      exact hne hpos hperm.symm.eq_nil
  · have hfew : countNew (fun r : Peer => subnetKey net r.address) [subnetKey net dest.address]
        (eligible dest relays) ≤ _ :=
      countNew_le _ _
    have hn : min hopCount.toNat (eligible dest relays).length = hopCount.toNat := by omega
    rw [planned, biased_biasExit.length_eq, hn, length_selectDiverse]
    · omega
    · rw [countNew_perm hperm]
      omega

theorem adaptiveHops_spec {destAddr : String} {minHops maxHops : Int}
    (h : 0 < adaptiveHops net destAddr relays minHops maxHops) :
    max 1 minHops ≤ adaptiveHops net destAddr relays minHops maxHops ∧
      adaptiveHops net destAddr relays minHops maxHops ≤ distinctSubnetRelays net destAddr relays := by
  simp only [adaptiveHops] at h ⊢
  generalize distinctSubnetRelays net destAddr relays = distinct at h ⊢
  split_ifs at h ⊢ <;> omega

end SyncSwarm.Routing
