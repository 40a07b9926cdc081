import SyncSwarm.Theorems.Routing.Planner

/-! How far apart the hops of a path are. -/

namespace SyncSwarm.Routing
open Lib Discovery List

variable {net : Net} {rng : Rng} {dest : Peer} {relays picked ordered : List Peer} {opt : PathOptions} {n : Nat}
  {destAddr : String}

def Peer.subnet (net : Net) (r : Peer) : String := subnetKey net r.address

def covered (net : Net) (destAddr : String) (peers : List Peer) : Nat :=
  ((peers.map (Peer.subnet net)).toFinset \ {subnetKey net destAddr}).card

/-- As many relays of the list as there are to be cover as many subnets as any could, and every subnet
    with its first relay. --/
structure Best (net : Net) (destAddr : String) (ordered : List Peer) (n : Nat) (picked : List Peer) : Prop where
  subset : picked ⊆ ordered
  length : picked.length = min n ordered.length
  most : ∀ choice : List Peer, choice ⊆ ordered → choice.length = min n ordered.length →
    covered net destAddr choice ≤ covered net destAddr picked
  first : ∀ r ∈ picked, r.subnet net ≠ subnetKey net destAddr →
    ∃ earliest ∈ picked, ordered.find? (fun r' => r'.subnet net = r.subnet net) = some earliest

def onePerSubnet (net : Net) (ordered : List Peer) (n : Nat) (destAddr : String) : List Peer :=
  takeNew (Peer.subnet net) n [subnetKey net destAddr] ordered

theorem selectDiverse_eq : selectDiverse net ordered n destAddr = onePerSubnet net ordered n destAddr ++
    takeNew Peer.id (n - (onePerSubnet net ordered n destAddr).length)
      ((onePerSubnet net ordered n destAddr).map Peer.id) ordered := rfl

theorem nodup_onePerSubnet : ((onePerSubnet net ordered n destAddr).map (Peer.subnet net)).Nodup := nodup_takeNew _ _ _

theorem onePerSubnet_apart : ∀ r ∈ onePerSubnet net ordered n destAddr, r.subnet net ≠ subnetKey net destAddr :=
  fun r hr heq => takeNew_notMem r hr (heq ▸ mem_singleton_self _)

theorem length_onePerSubnet : (onePerSubnet net ordered n destAddr).length = min n (covered net destAddr ordered) := by
  rw [onePerSubnet, length_takeNew, covered]
  rfl

theorem length_selectDiverse_eq (hids : (ordered.map Peer.id).Nodup) :
    (selectDiverse net ordered n destAddr).length = min n ordered.length := by
  have hsub : (onePerSubnet net ordered n destAddr).Sublist ordered := takeNew_sublist _ _ _
  have hrest : ((ordered.map Peer.id).toFinset \ ((onePerSubnet net ordered n destAddr).map Peer.id).toFinset).card =
      ordered.length - (onePerSubnet net ordered n destAddr).length := by
    rw [Finset.card_sdiff_of_subset, toFinset_card_of_nodup hids,
      toFinset_card_of_nodup ((hsub.map Peer.id).nodup hids),
      length_map, length_map]
    intro id hid
    exact mem_toFinset.mpr ((hsub.map Peer.id).subset (mem_toFinset.mp hid))
  have hle := hsub.length_le
  have hn : (onePerSubnet net ordered n destAddr).length ≤ n := by
    rw [length_onePerSubnet]
    omega
  rw [selectDiverse_eq, length_append, length_takeNew, hrest]
  omega

theorem nodup_selectDiverse (hids : (ordered.map Peer.id).Nodup) :
    ((selectDiverse net ordered n destAddr).map Peer.id).Nodup := by
  have hsub : (onePerSubnet net ordered n destAddr).Sublist ordered := takeNew_sublist _ _ _
  rw [selectDiverse_eq, map_append]
  refine nodup_append.mpr ⟨(hsub.map Peer.id).nodup hids, nodup_takeNew _ _ _, fun a ha b hb heq => ?_⟩
  obtain ⟨r, hr, rfl⟩ := mem_map.mp hb
  exact takeNew_notMem r hr (heq ▸ ha)

theorem covered_onePerSubnet :
    covered net destAddr (onePerSubnet net ordered n destAddr) = (onePerSubnet net ordered n destAddr).length := by
  have hout : subnetKey net destAddr ∉ ((onePerSubnet net ordered n destAddr).map (Peer.subnet net)).toFinset := by
    intro h
    obtain ⟨r, hr, heq⟩ := mem_map.mp (mem_toFinset.mp h)
    exact onePerSubnet_apart r hr heq
  rw [covered, Finset.sdiff_singleton_eq_erase, Finset.erase_eq_of_notMem hout,
    toFinset_card_of_nodup nodup_onePerSubnet, length_map]

theorem covered_mono {peers : List Peer} (h : picked ⊆ peers) :
    covered net destAddr picked ≤ covered net destAddr peers := by
  refine Finset.card_le_card (Finset.sdiff_subset_sdiff (fun k hk => ?_) (Finset.Subset.refl _))
  exact mem_toFinset.mpr (map_subset _ h (mem_toFinset.mp hk))

theorem covered_le_length : covered net destAddr picked ≤ picked.length :=
  calc covered net destAddr picked ≤ (picked.map (Peer.subnet net)).toFinset.card :=
    Finset.card_le_card Finset.sdiff_subset
    _ ≤ (picked.map (Peer.subnet net)).length := toFinset_card_le _
    _ = picked.length := length_map _

theorem best_selectDiverse (hids : (ordered.map Peer.id).Nodup) :
    Best net destAddr ordered n (selectDiverse net ordered n destAddr) := by
  refine ⟨selectDiverse_subset, length_selectDiverse_eq hids, fun choice hsub hlen => ?_, fun r hr hother => ?_⟩
  · -- A choice covers no more subnets than it has relays, and no more than there are; the first pass covers as many.
    have hlength : covered net destAddr choice ≤ choice.length := covered_le_length
    have hfew : covered net destAddr choice ≤ min n (covered net destAddr ordered) :=
      Nat.le_min.mpr ⟨by omega, covered_mono hsub⟩
    calc covered net destAddr choice ≤ (onePerSubnet net ordered n destAddr).length := length_onePerSubnet ▸ hfew
      _ = covered net destAddr (onePerSubnet net ordered n destAddr) := covered_onePerSubnet.symm
      _ ≤ covered net destAddr (selectDiverse net ordered n destAddr) := covered_mono (subset_append_left _ _)
  · rw [selectDiverse_eq] at hr ⊢
    rcases mem_append.mp hr with hr | hr
    · exact ⟨r, mem_append_left _ hr, find?_of_mem_takeNew r hr⟩
    · -- There was room for more after the first pass, so it has covered this subnet.
      have hroom : (onePerSubnet net ordered n destAddr).length < n := by
        by_contra hfull
        rw [Nat.sub_eq_zero_of_le (Nat.not_lt.mp hfull), takeNew_zero] at hr
        cases hr
      rcases key_mem_takeNew hroom r ((takeNew_sublist _ _ _).subset hr) with hused | hmem
      · exact absurd (mem_singleton.mp hused) hother
      · obtain ⟨earliest, he, heq⟩ := mem_map.mp hmem
        exact ⟨earliest, mem_append_left _ he, heq ▸ find?_of_mem_takeNew earliest he⟩

theorem nodup_sorted_eligible (hids : (relays.map Peer.id).Nodup) :
    ((sorted (eligible dest relays)).map Peer.id).Nodup :=
  ((perm_sorted _).map Peer.id).nodup_iff.mpr ((filter_sublist.map Peer.id).nodup hids)

/-- What is picked for a path covers as many subnets as any choice of relays could, the destination's apart, and every
    subnet with the relay that comes first: in a list in any order, and in the order of the latencies. --/
theorem selection_optimal (hids : (relays.map Peer.id).Nodup) :
    (∀ n, Best net destAddr relays n (selectDiverse net relays n destAddr)) ∧
    ∀ dest hopCount path, buildPath net dest relays hopCount = .ok path →
      ∃ picked, path = pathOf picked dest ∧
        Best net dest.address (sorted (eligible dest relays)) hopCount.toNat picked := by
  refine ⟨fun n => best_selectDiverse hids, fun dest hopCount path hpath => ?_⟩
  simp only [buildPath, bind_eq_ok, pure_eq_ok] at hpath
  obtain ⟨peers, hpeers, rfl⟩ := hpath
  obtain ⟨rfl, -, -⟩ := candidates_ok hpeers
  have hlen : (sorted (eligible dest relays)).length = (eligible dest relays).length := (perm_sorted _).length_eq
  have hbest : Best net dest.address (sorted (eligible dest relays)) (min hopCount.toNat (eligible dest relays).length)
      (selectDiverse net (sorted (eligible dest relays)) (min hopCount.toNat (eligible dest relays).length)
        dest.address) :=
    best_selectDiverse (nodup_sorted_eligible hids)
  refine ⟨_, rfl, hbest.subset, ?_, fun choice hsub hcount => hbest.most choice hsub ?_, hbest.first⟩
  · rw [hbest.length]
    omega
  · omega

namespace Sample

def hosts : Net where
  splitHost _ := none
  parseIP _ := none
  resolve addr := some addr

def relay (id address : String) : Peer := { id, address, active := true, pubKey := [1], relayCapable := true }

def four : List Peer := [relay "a" "A", relay "b" "A", relay "c" "B", relay "d" "C"]

end Sample

open Sample in
theorem selection_optimal_four : Best hosts "C" four 3 (selectDiverse hosts four 3 "C") ∧
    selectDiverse hosts four 3 "C" = [relay "a" "A", relay "c" "B", relay "b" "A"] :=
  ⟨(selection_optimal (by decide +kernel)).1 3, by decide +kernel⟩

/-! ### Independent hops -/

theorem selectDiverse_eq_onePerSubnet (h : n ≤ covered net destAddr ordered) :
    selectDiverse net ordered n destAddr = onePerSubnet net ordered n destAddr := by
  have hlen : (onePerSubnet net ordered n destAddr).length = n := length_onePerSubnet.trans (Nat.min_eq_left h)
  rw [selectDiverse_eq, hlen, Nat.sub_self, takeNew_zero, append_nil]

theorem covered_perm {peers : List Peer} (h : ordered.Perm peers) :
    covered net destAddr ordered = covered net destAddr peers := by
  rw [covered, covered, toFinset_eq_of_perm _ _ (h.map _)]

theorem distinctSubnetRelays_eq :
    distinctSubnetRelays net destAddr relays = covered net destAddr (relays.filter Peer.usable) := by
  rw [distinctSubnetRelays, countNew_eq, covered]
  rfl

/-- The relays are in distinct subnets, none of them that of the destination. --/
structure Independent (net : Net) (destAddr : String) (picked : List Peer) : Prop where
  nodup : (picked.map (Peer.subnet net)).Nodup
  apart : ∀ r ∈ picked, r.subnet net ≠ subnetKey net destAddr

/-- The relay near the destination that takes the last place, when none of those that were picked is near. --/
def substitute (picked ordered : List Peer) (exitNear : List String) : Option Peer :=
  if picked.any (·.id ∈ exitNear) then none else ordered.find? (·.id ∈ exitNear)

theorem biasExit_eq (hne : picked ≠ []) (ordered : List Peer) (exitNear : List String) :
    (∃ near, substitute picked ordered exitNear = some near ∧ biasExit picked ordered exitNear =
      picked.dropLast ++ [near]) ∨
      substitute picked ordered exitNear = none ∧ (biasExit picked ordered exitNear).Perm picked := by
  have hbiased : Biased picked ordered exitNear (biasExit picked ordered exitNear) := biased_biasExit
  cases hsub : substitute picked ordered exitNear with
  | none =>
    refine .inr ⟨rfl, ?_⟩
    rcases hbiased.perm_or_replaced with hperm | ⟨front, last, near, -, -, hmem, hid, -, hfar⟩
    · exact hperm
    · rw [substitute, if_neg (by simpa using hfar)] at hsub
      exact absurd (decide_eq_true hid) (find?_eq_none.mp hsub near hmem)
  | some near =>
    refine .inl ⟨near, rfl, ?_⟩
    rw [substitute] at hsub
    split at hsub
    · cases hsub
    next hfar =>
      have hfar : ∀ r ∈ picked, r.id ∉ exitNear := by simpa using hfar
      obtain ⟨last, hlast⟩ := Option.ne_none_iff_exists'.mp (mt getLast?_eq_none_iff.mp hne)
      have hlastMem := mem_of_getLast? hlast
      have hid : near.id ∈ exitNear := by simpa using find?_some hsub
      have hnone : picked.find? (·.id ∈ exitNear) = none := find?_eq_none.mpr fun r hr => by simpa using hfar r hr
      -- An ID that is near is not that of a relay that was picked.
      have hsame : ordered.find? (fun r => r.id ∈ exitNear ∧ r.id ∉ picked.map Peer.id) = some near := by
        rw [← hsub]
        refine congrArg (ordered.find? ·) (funext fun r => decide_eq_decide.mpr (and_iff_left_of_imp fun hr hmem => ?_))
        obtain ⟨x, hx, hxid⟩ := mem_map.mp hmem
        exact hfar x hx (hxid ▸ hr)
      obtain ⟨front, rfl⟩ := getLast?_eq_some_iff.mp hlast
      rw [biasExit, hlast]
      dsimp only
      rw [if_neg (not_or.mpr ⟨length_pos_iff.mpr (ne_nil_of_mem hid) |>.ne', hfar last hlastMem⟩), hnone, hsame]
      simp

/-- When a relay takes the last place, it is outside the destination's subnet and those of the hops before it. --/
def ExitApart (net : Net) (destAddr : String) (picked ordered : List Peer) (exitNear : List String) : Prop :=
  ∀ near ∈ substitute picked ordered exitNear, near.subnet net ≠ subnetKey net destAddr ∧
    ∀ r ∈ picked.dropLast, r.subnet net ≠ near.subnet net

theorem independent_biasExit {exitNear : List String} (h : Independent net destAddr picked) (hne : picked ≠ []) :
    Independent net destAddr (biasExit picked ordered exitNear) ↔ ExitApart net destAddr picked ordered exitNear := by
  rcases biasExit_eq hne ordered exitNear with ⟨near, hsub, hout⟩ | ⟨hsub, hperm⟩
  · have hfront : picked.dropLast <+ picked := dropLast_sublist picked
    rw [hout, ExitApart, hsub]
    constructor
    · rintro ⟨hnodup, hapart⟩ x hx
      obtain rfl := Option.some.inj hx
      refine ⟨hapart near (mem_append_right _ (mem_singleton_self near)), fun r hr heq => ?_⟩
      rw [map_append] at hnodup
      exact (nodup_append.mp hnodup).2.2 _ (mem_map_of_mem hr) _ (mem_singleton_self _) heq
    · intro hnear
      obtain ⟨hdest, hothers⟩ := hnear near rfl
      refine ⟨?_, fun r hr => ?_⟩
      · rw [map_append]
        refine nodup_append.mpr ⟨(hfront.map _).nodup h.nodup, nodup_singleton _, fun a ha b hb heq => ?_⟩
        obtain ⟨r, hr, rfl⟩ := mem_map.mp ha
        obtain rfl := mem_singleton.mp hb
        exact hothers r hr heq
      · rcases mem_append_single.mp hr with hr | rfl
        · exact h.apart r (hfront.subset hr)
        · exact hdest
  · rw [ExitApart, hsub]
    refine ⟨fun _ near hnear => ?_, fun _ =>
      ⟨(hperm.map _).nodup_iff.mpr h.nodup, fun r hr => h.apart r (hperm.subset hr)⟩⟩
    cases hnear

theorem Independent.of_hops {other : List Peer} (h : Independent net destAddr picked)
    (hsame : picked.map Peer.hop = other.map Peer.hop) :
    Independent net destAddr other := by
  have hsubnets : picked.map (Peer.subnet net) = other.map (Peer.subnet net) := by
    have hmap := congrArg (List.map fun hop => subnetKey net hop.address) hsame
    rwa [map_map, map_map] at hmap
  refine ⟨hsubnets ▸ h.nodup, fun r hr heq => ?_⟩
  obtain ⟨x, hx, hxr⟩ := mem_map.mp (hsubnets ▸ mem_map_of_mem (f := Peer.subnet net) hr)
  exact h.apart x hx (hxr.trans heq)

/-- With the number of hops that diversity allows for, every hop of the path is in a subnet of its own exactly
    when the relay near the destination that takes the last place, if one does, is apart from the destination and
    from the hops before it. --/
theorem adaptive_hops_independent {minHops maxHops : Int} (hself : ∀ r ∈ relays, r.id ≠ dest.id)
    (hpos : 0 < adaptiveHops net dest.address relays minHops maxHops) :
    (∀ path, buildPathTiered net rng dest relays (adaptiveHops net dest.address relays minHops maxHops) opt = .ok path →
      ∃ picked, path = pathOf picked dest ∧ picked ⊆ relays ∧
        (picked.length : Int) = adaptiveHops net dest.address relays minHops maxHops ∧
          Independent net dest.address picked) ↔
    dest.id = "" ∨ dest.pubKey.length = 0 ∨
      ExitApart net dest.address (selectDiverse net (tierOrder net rng (relays.filter Peer.usable) opt)
        (adaptiveHops net dest.address relays minHops maxHops).toNat dest.address)
        (tierOrder net rng (relays.filter Peer.usable) opt) opt.exitNear := by
  obtain ⟨-, hle⟩ := adaptiveHops_spec hpos
  obtain ⟨hops, hhops⟩ : ∃ hops : Int, adaptiveHops net dest.address relays minHops maxHops = hops := ⟨_, rfl⟩
  rw [hhops] at hpos hle ⊢
  have heligible : eligible dest relays = relays.filter Peer.usable :=
    filter_congr fun r hr => by rw [decide_eq_true (hself r hr), Bool.and_true]
  rw [distinctSubnetRelays_eq, ← heligible] at hle
  rw [← heligible]
  have hlen : covered net dest.address (eligible dest relays) ≤ (eligible dest relays).length := covered_le_length
  have hn : min hops.toNat (eligible dest relays).length = hops.toNat := by omega
  have hne : 0 < hops → eligible dest relays ≠ [] := by
    intro _ hnil
    have hzero : (eligible dest relays).length = 0 := by rw [hnil, length_nil]
    omega
  have hperm : (tierOrder net rng (eligible dest relays) opt).Perm (eligible dest relays) := perm_tierOrder _
  have hselect : selectDiverse net (tierOrder net rng (eligible dest relays) opt) hops.toNat dest.address =
      onePerSubnet net (tierOrder net rng (eligible dest relays) opt) hops.toNat dest.address :=
    selectDiverse_eq_onePerSubnet (by rw [covered_perm hperm]; omega)
  have hlength : (onePerSubnet net (tierOrder net rng (eligible dest relays) opt) hops.toNat dest.address).length =
      hops.toNat := by
    rw [length_onePerSubnet, covered_perm hperm]
    omega
  have hbiased := @independent_biasExit net _ (tierOrder net rng (eligible dest relays) opt) dest.address opt.exitNear
    ⟨nodup_onePerSubnet, onePerSubnet_apart⟩ (length_pos_iff.mp (hlength ▸ Int.pos_iff_toNat_pos.mp hpos))
  have hplanned : planned net rng dest relays hops opt = biasExit
      (onePerSubnet net (tierOrder net rng (eligible dest relays) opt) hops.toNat dest.address)
      (tierOrder net rng (eligible dest relays) opt) opt.exitNear := by
    rw [planned, hn, hselect]
  rw [buildPathTiered_eq (Int.le_of_lt hpos) hne, hselect, ← hbiased, ← hplanned, ← or_assoc]
  by_cases hdest : dest.id = "" ∨ dest.pubKey.length = 0
  · exact ⟨fun _ => .inl hdest, fun _ path hpath => by rw [if_pos hdest] at hpath; cases hpath⟩
  · rw [if_neg hdest]
    constructor
    · intro h
      obtain ⟨picked, hpath, -, -, hindependent⟩ := h _ rfl
      exact .inr (hindependent.of_hops (append_cancel_right hpath).symm)
    · rintro (h | h) path hpath
      · exact absurd h hdest
      · obtain rfl := Except.ok.inj hpath
        refine ⟨_, rfl, fun r hr => (mem_eligible.mp (mem_planned hr)).1, ?_, h⟩
        rw [hplanned, biased_biasExit.length_eq, hlength]
        omega

namespace Sample

def toward (exitNear : List String) : PathOptions := { seed := 0, deprioritize := fun _ => false, exitNear }

def unshuffled : Rng := ⟨fun _ _ peers => peers, fun _ _ peers => .refl peers⟩

def three (address : String) : List Peer := [relay "a" "A", relay "b" "B", relay "x" address]

end Sample

open Sample in
theorem adaptive_hops_independent_three : ∃ picked,
    buildPathTiered hosts unshuffled (relay "d" "D") (three "C") 2 (toward ["x"]) =
      .ok (pathOf picked (relay "d" "D")) ∧
      picked.length = 2 ∧ Independent hosts "D" picked := by
  have hhops : adaptiveHops hosts (relay "d" "D").address (three "C") 0 0 = 2 := by decide +kernel
  have hpaths :=
    @adaptive_hops_independent hosts unshuffled (relay "d" "D") (three "C") (toward ["x"]) 0 0 (by decide +kernel)
    (by rw [hhops]; decide)
  rw [hhops] at hpaths
  have happly : buildPathTiered hosts unshuffled (relay "d" "D") (three "C") 2 (toward ["x"]) =
      .ok (pathOf [relay "a" "A", relay "x" "C"] (relay "d" "D")) := by decide +kernel
  have hapart :
    ExitApart hosts "D"
    (selectDiverse hosts (tierOrder hosts unshuffled ((three "C").filter Peer.usable) (toward ["x"])) 2 "D")
      (tierOrder hosts unshuffled ((three "C").filter Peer.usable) (toward ["x"])) ["x"] := by
    unfold ExitApart
    decide +kernel
  obtain ⟨picked, hpath, -, hlen, hindependent⟩ := hpaths.mpr (.inr (.inr hapart)) _ happly
  exact ⟨picked, happly.trans (congrArg Except.ok hpath), by omega, hindependent⟩

open Sample in
/-- The relay near the destination takes the place of the last hop, though it is in the subnet of the first, or in the
    destination's. --/
theorem adaptive_hops_dependent :
    adaptiveHops hosts "D" (three "A") 2 3 = 2 ∧
    buildPathTiered hosts unshuffled (relay "d" "D") (three "A") 2 (toward ["x"]) =
      .ok (pathOf [relay "a" "A", relay "x" "A"] (relay "d" "D")) ∧
    ¬Independent hosts "D" [relay "a" "A", relay "x" "A"] ∧
    adaptiveHops hosts "D" (three "D") 2 3 = 2 ∧
    buildPathTiered hosts unshuffled (relay "d" "D") (three "D") 2 (toward ["x"]) =
      .ok (pathOf [relay "a" "A", relay "x" "D"] (relay "d" "D")) ∧
    ¬Independent hosts "D" [relay "a" "A", relay "x" "D"] := by
  refine ⟨by decide +kernel, by decide +kernel, fun h => ?_, by decide +kernel, by decide +kernel, fun h => ?_⟩
  · exact absurd h.nodup (by decide +kernel)
  · exact absurd h.apart (by decide +kernel)

/-! ### Well-formed paths -/

/-- The relays of a path as `BuildPathTiered` promises them. --/
structure WellFormed (dest : Peer) (relays : List Peer) (hopCount : Int) (exitNear : List String) (picked : List Peer) :
    Prop where
  length : picked.length = min hopCount.toNat (eligible dest relays).length
  eligible : picked ⊆ eligible dest relays
  nodup : ((picked ++ [dest]).map Peer.id).Nodup
  exit : (∃ r ∈ Routing.eligible dest relays, r.id ∈ exitNear) → ∃ last, picked.getLast? = some last ∧
    last.id ∈ exitNear

theorem exit_planned {hopCount : Int} (hcount : 0 < hopCount)
    (hnear : ∃ r ∈ eligible dest relays, r.id ∈ opt.exitNear) :
    ∃ last, (planned net rng dest relays hopCount opt).getLast? = some last ∧ last.id ∈ opt.exitNear := by
  obtain ⟨r, hr, hnear⟩ := hnear
  have hordered : r ∈ tierOrder net rng (eligible dest relays) opt := (perm_tierOrder _).symm.subset hr
  have hlen := length_pos_of_mem hr
  exact biased_biasExit.exit (selectDiverse_ne_nil (by omega) (ne_nil_of_mem hordered)) ⟨r, hordered, hnear⟩

theorem buildPathTiered_exit {hopCount : Int} {path : List Hop}
    (h : buildPathTiered net rng dest relays hopCount opt = .ok path) (hcount : 0 < hopCount)
    (hnear : ∃ r ∈ eligible dest relays, r.id ∈ opt.exitNear) :
    ∃ picked exit, path = pathOf (picked ++ [exit]) dest ∧ exit.id ∈ opt.exitNear := by
  obtain ⟨exit, hlast, hid⟩ : ∃ exit, (planned net rng dest relays hopCount opt).getLast? = some exit ∧
    exit.id ∈ opt.exitNear :=
    exit_planned hcount hnear
  obtain ⟨picked, hpicked⟩ := getLast?_eq_some_iff.mp hlast
  exact ⟨picked, exit, by rw [(buildPathTiered_ok h).1, hpicked], hid⟩

theorem nodup_tierOrder (hids : (relays.map Peer.id).Nodup) :
    ((tierOrder net rng (eligible dest relays) opt).map Peer.id).Nodup :=
  ((perm_tierOrder _).map Peer.id).nodup_iff.mpr ((filter_sublist.map Peer.id).nodup hids)

theorem length_planned (hids : (relays.map Peer.id).Nodup) (hopCount : Int) :
    (planned net rng dest relays hopCount opt).length = min hopCount.toNat (eligible dest relays).length := by
  rw [planned, biased_biasExit.length_eq, length_selectDiverse_eq (nodup_tierOrder hids), (perm_tierOrder _).length_eq]
  omega

theorem buildPathTiered_wellFormed {hopCount : Int} (hids : (relays.map Peer.id).Nodup) (hid : dest.id ≠ "")
    (hkey : 0 < dest.pubKey.length) (hcount : 1 ≤ hopCount) (hsome : eligible dest relays ≠ []) :
    ∃ picked, buildPathTiered net rng dest relays hopCount opt = .ok (pathOf picked dest) ∧
      WellFormed dest relays hopCount opt.exitNear picked := by
  refine ⟨planned net rng dest relays hopCount opt, ?_,
    ⟨length_planned hids hopCount, fun _ => mem_planned, ?_, exit_planned (by omega)⟩⟩
  · rw [buildPathTiered_eq (by omega) fun _ => hsome, if_neg (by rintro (h | h) <;> [exact hid h; omega])]
  · rw [map_append]
    refine nodup_append.mpr ⟨biased_biasExit.nodup_ids (nodup_selectDiverse (nodup_tierOrder hids)), nodup_singleton _,
      fun a ha b hb heq => ?_⟩
    obtain ⟨r, hr, rfl⟩ := mem_map.mp ha
    exact (mem_eligible.mp (mem_planned hr)).2.2 (heq.trans (mem_singleton.mp hb))

end SyncSwarm.Routing
