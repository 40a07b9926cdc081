import Mathlib.Data.List.AList

/-! Finite maps with a size: Mathlib's `AList`, for values of one type, with the operations of a built-in
    map type. -/

namespace SyncSwarm.Lib

def GoMap (κ ν : Type) : Type := AList (fun _ : κ => ν)

namespace GoMap
variable {κ ν : Type}

instance : EmptyCollection (GoMap κ ν) := inferInstanceAs (EmptyCollection (AList fun _ : κ => ν))

def keys (m : GoMap κ ν) : List κ := AList.keys m

def entries (m : GoMap κ ν) : List (κ × ν) := (AList.entries m).map fun e => (e.1, e.2)

def len (m : GoMap κ ν) : Nat := m.keys.length

def count (m : GoMap κ ν) (f : κ → ν → Bool) : Nat := m.entries.countP fun e => f e.1 e.2

theorem len_eq_count (m : GoMap κ ν) : m.len = m.count fun _ _ => true := by
  show (List.map Sigma.fst _).length = _
  rw [count, List.countP_true, entries, List.length_map, List.length_map]

theorem len_eq_count_add (m : GoMap κ ν) (f : κ → ν → Bool) : m.len = m.count f + m.count fun k v => !f k v := by
  rw [len_eq_count, count, List.countP_true, List.length_eq_countP_add_countP fun e => f e.1 e.2]
  simp only [count, Bool.not_eq_true, Bool.decide_eq_false]

variable [DecidableEq κ]

def get? (m : GoMap κ ν) (k : κ) : Option ν := AList.lookup k m

def set (m : GoMap κ ν) (k : κ) (v : ν) : GoMap κ ν := AList.insert k v m

def delete (m : GoMap κ ν) (k : κ) : GoMap κ ν := AList.erase k m

@[simp] theorem get?_empty (k : κ) : (∅ : GoMap κ ν).get? k = none := AList.lookup_empty k

@[simp] theorem get?_set_self (m : GoMap κ ν) (k : κ) (v : ν) : (m.set k v).get? k = some v := AList.lookup_insert m

theorem get?_set_ne (m : GoMap κ ν) {k k' : κ} (v : ν) (h : k' ≠ k) : (m.set k v).get? k' = m.get? k' :=
  AList.lookup_insert_ne h

theorem get?_set (m : GoMap κ ν) (k k' : κ) (v : ν) :
    (m.set k v).get? k' = if k' = k then some v else m.get? k' := by
  split
  · next h => rw [h, get?_set_self]
  · next h => exact get?_set_ne m v h

@[simp] theorem get?_delete_self (m : GoMap κ ν) (k : κ) : (m.delete k).get? k = none := AList.lookup_erase k m

theorem get?_delete_ne (m : GoMap κ ν) {k k' : κ} (h : k' ≠ k) : (m.delete k).get? k' = m.get? k' :=
  AList.lookup_erase_ne h

/-! ### Entries -/

theorem lookup_entries (m : GoMap κ ν) (k : κ) : m.entries.lookup k = m.get? k := by
  have hlist : ∀ l : List (Sigma fun _ : κ => ν), (l.map fun e => (e.1, e.2)).lookup k = l.dlookup k := by
    intro l
    induction l with
    | nil => rfl
    | cons e l ih =>
      obtain ⟨j, v⟩ := e
      by_cases hj : k = j
      · subst hj
        simp
      · rw [List.dlookup_cons_ne _ _ hj, ← ih, List.map_cons, List.lookup_cons, beq_false_of_ne hj]
  exact hlist _

theorem mem_entries {m : GoMap κ ν} {k : κ} {v : ν} : (k, v) ∈ m.entries ↔ m.get? k = some v := by
  have hsigma : (k, v) ∈ m.entries ↔ ⟨k, v⟩ ∈ AList.entries m := by simp [entries]
  rw [hsigma, ← List.mem_dlookup_iff (AList.nodupKeys m)]
  rfl

/-! ### Ranging over a map -/

/-- The order in which `range` visits the pairs of a map: any order. --/
structure Iteration (κ ν : Type) where
  order : GoMap κ ν → List (κ × ν)
  perm : ∀ m, (order m).Perm m.entries

def Iteration.inOrder : Iteration κ ν := ⟨entries, fun _ => .refl _⟩

/-- A loop over a map whose rounds each change what is seen under their own key only. --/
theorem Iteration.foldl_view {σ β : Type} (iter : Iteration κ ν) (m : GoMap κ ν) (step : σ → κ × ν → σ)
    (view : σ → κ → β) (g : κ → ν → β) (hown : ∀ s k v, view (step s (k, v)) k = g k v)
    (hother : ∀ s k v j, j ≠ k → view (step s (k, v)) j = view s j) (s : σ) (k : κ) :
    view ((iter.order m).foldl step s) k = (m.get? k).elim (view s k) (g k) := by
  have hskip : ∀ (l : List (κ × ν)) s, k ∉ l.map Prod.fst → view (l.foldl step s) k = view s k := by
    intro l
    induction l with
    | nil => intro s _; rfl
    | cons e l ih =>
      intro s hk
      rw [List.map_cons, List.mem_cons, not_or] at hk
      rw [List.foldl_cons, ih _ hk.2, hother s e.1 e.2 k hk.1]
  have hround : ∀ (l : List (κ × ν)) s v, (l.map Prod.fst).Nodup → (k, v) ∈ l → view (l.foldl step s) k = g k v := by
    intro l
    induction l with
    | nil => intro s v _ hmem; simp at hmem
    | cons e l ih =>
      intro s v hl hmem
      obtain ⟨hk, hl⟩ := List.nodup_cons.mp hl
      rcases List.mem_cons.mp hmem with rfl | hmem
      · rw [List.foldl_cons, hskip _ _ hk, hown]
      · exact ih _ v hl hmem
  have hkeys : m.entries.map Prod.fst = AList.keys m := by
    rw [entries, List.map_map]
    rfl
  have hperm := (iter.perm m).map Prod.fst
  rw [hkeys] at hperm
  cases hget : m.get? k with
  | none => exact hskip _ s fun hk => AList.lookup_eq_none.mp hget (AList.mem_keys.mpr (hperm.mem_iff.mp hk))
  | some v =>
    exact hround _ s v (hperm.nodup_iff.mpr (AList.keys_nodup m)) ((iter.perm m).mem_iff.mpr (mem_entries.mpr hget))

def filter (m : GoMap κ ν) (p : κ → ν → Bool) : GoMap κ ν :=
  ⟨(AList.entries m).filter fun e => p e.1 e.2, List.NodupKeys.sublist List.filter_sublist (AList.nodupKeys m)⟩

theorem get?_filter (m : GoMap κ ν) (p : κ → ν → Bool) (k : κ) : (m.filter p).get? k = (m.get? k).filter (p k) := by
  have hlist : ∀ l : List (Sigma fun _ : κ => ν), l.NodupKeys →
      (l.filter fun e => p e.1 e.2).dlookup k = (l.dlookup k).filter (p k) := by
    intro l hl
    induction l with
    | nil => rfl
    | cons e l ih =>
      obtain ⟨j, v⟩ := e
      obtain ⟨hj, hl⟩ := List.nodupKeys_cons.mp hl
      by_cases hk : k = j
      · subst hk
        have hnone : (l.filter fun e => p e.1 e.2).dlookup k = none :=
          List.dlookup_eq_none.mpr fun hmem => hj ((List.filter_sublist.map Sigma.fst).subset hmem)
        by_cases hp : p k v
        · simp [hp, Option.filter]
        · simp [hp, hnone, Option.filter]
      · have hskip : ∀ l' : List (Sigma fun _ : κ => ν), List.dlookup k (⟨j, v⟩ :: l') = l'.dlookup k := fun l' =>
          List.dlookup_cons_ne l' ⟨j, v⟩ hk
        by_cases hp : p j v
        · simp [hp, hskip, ih hl]
        · simp [hp, hskip, ih hl]
  exact hlist _ (AList.nodupKeys m)

theorem filter_eq_self {m : GoMap κ ν} {p : κ → ν → Bool} (h : ∀ k v, m.get? k = some v → p k v) : m.filter p = m :=
  AList.ext (List.filter_eq_self.mpr fun e he => h e.1 e.2 ((List.mem_dlookup_iff (AList.nodupKeys m)).mpr he))

/-! ### Sizes -/

theorem mem_keys {m : GoMap κ ν} {k : κ} : k ∈ m.keys ↔ (m.get? k).isSome :=
  AList.mem_keys.symm.trans AList.lookup_isSome.symm

theorem len_eq_length {m : GoMap κ ν} {l : List κ} (hl : l.Nodup) (h : ∀ k, (m.get? k).isSome ↔ k ∈ l) :
    m.len = l.length := by
  refine ((List.perm_ext_iff_of_nodup (AList.keys_nodup m) hl).mpr fun k => ?_).length_eq
  rw [← h, ← mem_keys]
  rfl

theorem ofNat_inj {a b : Nat} (ha : a < 4294967296) (hb : b < 4294967296) (h : UInt32.ofNat a = UInt32.ofNat b) :
    a = b := by
  have := congrArg UInt32.toNat h
  rwa [UInt32.toNat_ofNat_of_lt' ha, UInt32.toNat_ofNat_of_lt' hb] at this

theorem len_eq_of_toNat {m : GoMap UInt32 ν} {l : List Nat} (hl : l.Nodup) (hlt : ∀ a ∈ l, a < 4294967296)
    (h : ∀ j : UInt32, (m.get? j).isSome ↔ j.toNat ∈ l) : m.len = l.length := by
  rw [← List.length_map UInt32.ofNat]
  refine len_eq_length (List.Nodup.map_on (fun a ha b hb heq => ofNat_inj (hlt a ha) (hlt b hb) heq) hl) fun j => ?_
  rw [h]
  constructor
  · exact fun hmem => List.mem_map.mpr ⟨_, hmem, UInt32.ofNat_toNat⟩
  · intro hmem
    obtain ⟨a, ha, rfl⟩ := List.mem_map.mp hmem
    rwa [UInt32.toNat_ofNat_of_lt' (hlt a ha)]

def others (m : GoMap κ ν) (k : κ) : Nat := (m.keys.erase k).length

theorem len_eq_others {k : κ} {m : GoMap κ ν} (h : m.get? k = none) : m.len = m.others k := by
  have hk : k ∉ m.keys := fun hk => AList.lookup_eq_none.mp h (AList.mem_keys.mpr hk)
  rw [len, others, List.erase_of_not_mem hk]

@[simp] theorem others_set (m : GoMap κ ν) (k : κ) (v : ν) : (m.set k v).others k = m.others k := by
  have hkeys : (m.set k v).keys = k :: m.keys.erase k := AList.keys_insert m
  rw [others, hkeys, List.erase_cons_head, others]

@[simp] theorem others_delete (m : GoMap κ ν) (k : κ) : (m.delete k).others k = m.others k := by
  have hkeys : (m.delete k).keys = m.keys.erase k := AList.keys_erase k m
  have hk : k ∉ m.keys.erase k := fun h => ((List.Nodup.mem_erase_iff (AList.keys_nodup m)).mp h).1 rfl
  rw [others, hkeys, List.erase_of_not_mem hk, others]

theorem len_delete_lt {m : GoMap κ ν} {k : κ} (h : (m.get? k).isSome) : (m.delete k).len < m.len := by
  have hk : k ∈ m.keys := mem_keys.mpr h
  rw [len_eq_others (get?_delete_self m k), others_delete, others, len, List.length_erase_of_mem hk]
  exact Nat.sub_lt (List.length_pos_of_mem hk) Nat.one_pos

theorem get?_of_len_zero {m : GoMap κ ν} (h : m.len = 0) (k : κ) : m.get? k = none := by
  rw [← Option.not_isSome_iff_eq_none, ← mem_keys, List.length_eq_zero_iff.mp h]
  exact List.not_mem_nil

theorem len_eq_others_succ {k : κ} {m : GoMap κ ν} (h : (m.get? k).isSome) : m.len = m.others k + 1 := by
  have hk : k ∈ m.keys := mem_keys.mpr h
  rw [len, others, List.length_erase_of_mem hk, Nat.sub_add_cancel (List.length_pos_of_mem hk)]

theorem len_set_of_some {m : GoMap κ ν} {k : κ} (h : (m.get? k).isSome) (v : ν) : (m.set k v).len = m.len := by
  rw [len_eq_others_succ h, ← others_set m k v]
  exact len_eq_others_succ (by rw [get?_set_self]; rfl)

theorem len_delete_le (m : GoMap κ ν) (k : κ) : (m.delete k).len ≤ m.len := by
  by_cases h : (m.get? k).isSome
  · exact Nat.le_of_lt (len_delete_lt h)
  · rw [len_eq_others (get?_delete_self m k), others_delete, ← len_eq_others (Option.not_isSome_iff_eq_none.mp h)]

omit [DecidableEq κ] in
theorem len_filter_le (m : GoMap κ ν) (p : κ → ν → Bool) : (m.filter p).len ≤ m.len :=
  (List.filter_sublist.map Sigma.fst).length_le

/-! ### Counting -/

theorem count_congr {m : GoMap κ ν} {f g : κ → ν → Bool} (h : ∀ k v, m.get? k = some v → f k v = g k v) :
    m.count f = m.count g :=
  List.countP_congr fun e he => by rw [h e.1 e.2 (mem_entries.mp he)]

theorem count_set {m : GoMap κ ν} {k : κ} (h : m.get? k = none) (v : ν) (f : κ → ν → Bool) :
    (m.set k v).count f = m.count f + (f k v).toNat := by
  have hk : k ∉ AList.keys m := fun hmem => AList.lookup_eq_none.mp h (AList.mem_keys.mpr hmem)
  have hentries : (m.set k v).entries = (k, v) :: m.entries := by
    show List.map _ (List.kinsert k v m.1) = _
    rw [List.kinsert_def, List.kerase_of_notMem_keys hk]
    rfl
  rw [count, hentries, List.countP_cons, ← Bool.cond_eq_ite]
  rfl

theorem len_set {m : GoMap κ ν} {k : κ} (h : m.get? k = none) (v : ν) : (m.set k v).len = m.len + 1 := by
  rw [len_eq_count, count_set h, ← len_eq_count]
  rfl

theorem count_delete {m : GoMap κ ν} {k : κ} {v : ν} (h : m.get? k = some v) (f : κ → ν → Bool) :
    (m.delete k).count f + (f k v).toNat = m.count f := by
  have hlist : ∀ l : List (Sigma fun _ : κ => ν), l.dlookup k = some v →
      ((l.kerase k).map fun e => (e.1, e.2)).countP (fun e => f e.1 e.2) + (f k v).toNat =
        (l.map fun e => (e.1, e.2)).countP fun e => f e.1 e.2 := by
    intro l hl
    induction l with
    | nil => cases hl
    | cons e l ih =>
      obtain ⟨j, x⟩ := e
      by_cases hj : k = j
      · subst hj
        rw [List.dlookup_cons_eq] at hl
        obtain rfl := Option.some.inj hl
        have herase : List.kerase k (⟨k, x⟩ :: l) = l := List.kerase_cons_eq rfl
        rw [herase, List.map_cons, List.countP_cons, ← Bool.cond_eq_ite]
        rfl
      · have hskip : List.dlookup k (⟨j, x⟩ :: l) = l.dlookup k := List.dlookup_cons_ne l ⟨j, x⟩ hj
        have herase : List.kerase k (⟨j, x⟩ :: l) = ⟨j, x⟩ :: l.kerase k := List.kerase_cons_ne hj
        have hrest := ih (hskip ▸ hl)
        rw [herase, List.map_cons, List.map_cons, List.countP_cons, List.countP_cons]
        omega
  exact hlist _ h

theorem delete_of_none {m : GoMap κ ν} {k : κ} (h : m.get? k = none) : m.delete k = m := by
  have hk : k ∉ AList.keys m := fun hmem => AList.lookup_eq_none.mp h (AList.mem_keys.mpr hmem)
  exact AList.ext (List.kerase_of_notMem_keys hk)

theorem count_delete_le (m : GoMap κ ν) (k : κ) (f : κ → ν → Bool) : (m.delete k).count f ≤ m.count f := by
  cases h : m.get? k with
  | none => rw [delete_of_none h]
  | some v =>
    have hcount := count_delete h f
    omega

theorem count_set_le (m : GoMap κ ν) {k : κ} {v : ν} {f : κ → ν → Bool} (h : f k v = false) :
    (m.set k v).count f ≤ m.count f := by
  have hentries : (m.set k v).entries = (k, v) :: (m.delete k).entries := rfl
  rw [count, hentries, List.countP_cons_of_neg (by simp [h])]
  exact count_delete_le m k f

theorem count_mem_le (m : GoMap κ ν) (l : List κ) : (m.count fun k _ => decide (k ∈ l)) ≤ l.length := by
  have hkeys : (m.count fun k _ => decide (k ∈ l)) = (m.keys.filter (· ∈ l)).length := by
    rw [count, entries, List.countP_map, ← List.countP_eq_length_filter]
    show _ = List.countP _ (List.map Sigma.fst _)
    rw [List.countP_map]
    rfl
  rw [hkeys]
  have hnodup : (m.keys.filter (· ∈ l)).Nodup := (AList.keys_nodup m).filter _
  exact (List.subperm_of_subset hnodup fun k hk => of_decide_eq_true (List.mem_filter.mp hk).2).length_le

end GoMap
end SyncSwarm.Lib
