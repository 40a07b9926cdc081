import Mathlib.Data.List.Sort

/-! The `n` elements of a list at the smallest distance, and what is left of them when the list grows. -/

namespace SyncSwarm.Lib

variable {α : Type}

/-- `sort.Slice` with the given `less`. Elements that are not less either way may come in any order there;
    here they keep theirs. --/
def sortSlice (less : α → α → Bool) (l : List α) : List α := l.insertionSort (fun a b => less b a = false)

/-- `res` is the `n` elements of `all` at the smallest distance, or all of them when they are fewer, in
    increasing distance. --/
structure Nearest (dist : α → Nat) (n : Nat) (all res : List α) : Prop where
  increasing : res.Pairwise (dist · < dist ·)
  subset : res ⊆ all
  length : res.length = min n all.length
  nearer : ∀ a ∈ all, a ∉ res → ∀ r ∈ res, dist r < dist a

variable {dist : α → Nat}

theorem nodup_of_increasing {l : List α} (h : l.Pairwise (dist · < dist ·)) : l.Nodup :=
  h.imp fun hlt heq => absurd (heq ▸ hlt) (Nat.lt_irrefl _)

theorem length_lt_of_notMem {l m : List α} {a : α} (hl : l.Nodup) (hsub : l ⊆ m) (ha : a ∈ m) (hnot : a ∉ l) :
    l.length < m.length :=
  (List.subperm_of_subset (List.nodup_cons.mpr ⟨hnot, hl⟩) (List.cons_subset.mpr ⟨ha, hsub⟩)).length_le

theorem perm_sortSlice (less : α → α → Bool) (l : List α) : (sortSlice less l).Perm l := List.perm_insertionSort _ l

theorem sortSlice_increasing {less : α → α → Bool} (hless : ∀ a b, less a b = decide (dist a < dist b)) {l : List α}
    (hl : (l.map dist).Nodup) : (sortSlice less l).Pairwise (dist · < dist ·) := by
  have hle : ∀ a b, less b a = false ↔ dist a ≤ dist b := by
    intro a b
    rw [hless, decide_eq_false_iff_not, Nat.not_lt]
  have htotal : Std.Total (fun a b => less b a = false) := ⟨fun a b => by rw [hle, hle]; exact Nat.le_total _ _⟩
  have htrans : IsTrans α (fun a b => less b a = false) := ⟨fun a b c => by rw [hle, hle, hle]; exact Nat.le_trans⟩
  have hsorted : (sortSlice less l).Pairwise (dist · ≤ dist ·) :=
    (List.pairwise_insertionSort (fun a b => less b a = false) l).imp (hle _ _).mp
  have hne : (sortSlice less l).Pairwise (dist · ≠ dist ·) :=
    List.pairwise_map.mp (((perm_sortSlice less l).map dist).nodup_iff.mpr hl)
  exact (hsorted.and hne).imp fun h => Nat.lt_of_le_of_ne h.1 h.2

theorem nearest_sortSlice {less : α → α → Bool} (hless : ∀ a b, less a b = decide (dist a < dist b)) {l : List α}
    (hl : (l.map dist).Nodup) (n : Nat) : Nearest dist n l ((sortSlice less l).take n) where
  increasing := (sortSlice_increasing hless hl).sublist (List.take_sublist n _)
  subset := fun _ ha => (perm_sortSlice less l).subset (List.mem_of_mem_take ha)
  length := by rw [List.length_take, (perm_sortSlice less l).length_eq]
  nearer := by
    intro a ha hnot r hr
    have hsorted := sortSlice_increasing hless hl
    have hmem := (perm_sortSlice less l).symm.subset ha
    rw [← List.take_append_drop n (sortSlice less l)] at hsorted hmem
    rcases List.mem_append.mp hmem with htake | hdrop
    · exact absurd htake hnot
    · exact (List.pairwise_append.mp hsorted).2.2 r hr a hdrop

namespace Nearest
variable {n : Nat} {all res : List α}

theorem nodup (h : Nearest dist n all res) : res.Nodup := nodup_of_increasing h.increasing

theorem length_le (h : Nearest dist n all res) : res.length ≤ n := h.length.le.trans (Nat.min_le_left _ _)

/-- What was dropped before is not among the nearest later either: it is enough to look at those that were
    kept and at those that are new. --/
theorem append {m res' : List α} (h : Nearest dist n all res) (h' : Nearest dist n (res ++ m) res') :
    Nearest dist n (all ++ m) res' where
  increasing := h'.increasing
  subset := by
    intro a ha
    rcases List.mem_append.mp (h'.subset ha) with hres | hm
    · exact List.mem_append.mpr (.inl (h.subset hres))
    · exact List.mem_append.mpr (.inr hm)
  length := by
    have hold := h.length
    have hnew := h'.length
    rw [List.length_append] at hnew ⊢
    omega
  nearer := by
    intro a ha hnot r hr
    by_cases hkept : a ∈ res ++ m
    · exact h'.nearer a hkept hnot r hr
    · have hold : a ∈ all := (List.mem_append.mp ha).resolve_right fun hm => hkept (List.mem_append.mpr (.inr hm))
      have hdropped : a ∉ res := fun hres => hkept (List.mem_append.mpr (.inl hres))
      by_cases hres : r ∈ res
      · exact h.nearer a hold hdropped r hres
      · -- The old list was full, so the new `r` has taken the place of one that was nearer than `a`.
        have hfull : res.length = n := by
          have hlt := length_lt_of_notMem h.nodup h.subset hold hdropped
          have hlen := h.length
          omega
        obtain ⟨s, hs, hout⟩ : ∃ s ∈ res, s ∉ res' := by
          by_contra hall
          have hsub : res ⊆ res' := fun s hs => by_contra fun hout => hall ⟨s, hs, hout⟩
          have hlt := length_lt_of_notMem h.nodup hsub hr hres
          exact absurd (hfull ▸ hlt) (Nat.not_lt.mpr h'.length_le)
        calc dist r < dist s := h'.nearer s (List.mem_append.mpr (.inl hs)) hout r hr
          _ < dist a := h.nearer a hold hdropped s hs

theorem head?_le (h : Nearest dist n all res) (hn : 0 < n) {a : α} (ha : a ∈ all) :
    ∃ b, res.head? = some b ∧ dist b ≤ dist a := by
  cases hres : res with
  | nil =>
    have hlen := h.length
    have hpos := List.length_pos_of_mem ha
    rw [hres, List.length_nil] at hlen
    omega
  | cons b rest =>
    refine ⟨b, rfl, ?_⟩
    have hinc := h.increasing
    rw [hres] at hinc
    by_cases hmem : a ∈ res
    · rcases List.mem_cons.mp (hres ▸ hmem) with rfl | hrest
      · exact Nat.le_refl _
      · exact ((List.pairwise_cons.mp hinc).1 a hrest).le
    · exact (h.nearer a ha hmem b (hres ▸ List.mem_cons_self)).le

end Nearest
end SyncSwarm.Lib
