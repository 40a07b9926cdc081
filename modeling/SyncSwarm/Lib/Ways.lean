import Mathlib.Data.List.Nodup

/-! Pointers that lead to a goal. When one of them is set to a node from which they lead there without
    it, they still all do. -/

namespace SyncSwarm.Lib

section
variable {ι : Type} (next : ι → Option ι) (goal relays : ι → Prop)

/-- From `x` the pointers lead over the nodes of the list, all of them relays, to the goal `d`. --/
inductive Way : ι → List ι → ι → Prop where
  | last {x d : ι} : next x = some d → goal d → Way x [] d
  | hop {x y d : ι} {l : List ι} : next x = some y → relays y → Way y l d → Way x (y :: l) d

/-- `y` is a goal, or a relay from which the pointers lead to one, not over `i`. --/
def Onward (i y : ι) : Prop := goal y ∨ relays y ∧ ∃ l d, Way next goal relays y l d ∧ i ∉ y :: l

end

variable {ι : Type} {next next' : ι → Option ι} {goal relays : ι → Prop} {x y d i : ι} {l : List ι}

theorem onward_of_next (hrelays : relays y) (hnext : next y = some d) (hgoal : goal d) (hne : i ≠ y) :
    Onward next goal relays i y :=
  .inr ⟨hrelays, [], d, .last hnext hgoal, fun hmem => hne (List.mem_singleton.mp hmem)⟩

namespace Way

theorem next_eq (h : Way next goal relays x l d) : ∃ y, next x = some y := by
  cases h with
  | last hx | hop hx => exact ⟨_, hx⟩

theorem ends (h : Way next goal relays x l d) : goal d := by
  induction h with
  | last _ hgoal => exact hgoal
  | hop _ _ _ ih => exact ih

theorem forall_relays (h : Way next goal relays x l d) : ∀ z ∈ l, relays z := by
  induction h with
  | last => exact fun z hz => absurd hz List.not_mem_nil
  | hop _ hrelays _ ih => exact List.forall_mem_cons.mpr ⟨hrelays, ih⟩

theorem congr (h : Way next goal relays x l d) (hsame : ∀ z ∈ x :: l, next' z = next z) :
    Way next' goal relays x l d := by
  induction h with
  | last hx hgoal => exact .last ((hsame _ List.mem_cons_self).trans hx) hgoal
  | hop hx hrelays _ ih =>
    obtain ⟨hfirst, hrest⟩ := List.forall_mem_cons.mp hsame
    exact .hop (hfirst.trans hx) hrelays (ih hrest)

/-- A node on the way has a shorter one. --/
theorem of_mem (h : Way next goal relays x l d) {z : ι} (hz : z ∈ l) :
    ∃ l', Way next goal relays z l' d ∧ l'.length < l.length := by
  induction h with
  | last => exact absurd hz List.not_mem_nil
  | @hop x y d l _ _ hway ih =>
    rcases List.mem_cons.mp hz with rfl | hz
    · exact ⟨l, hway, Nat.lt_succ_self _⟩
    · obtain ⟨l', hway', hlt⟩ := ih hz
      exact ⟨l', hway', Nat.lt_succ_of_lt hlt⟩

variable (hgoal : ∀ d, goal d → next d = none)
include hgoal

theorem unique {l' : List ι} {d' : ι} (h : Way next goal relays x l d) (h' : Way next goal relays x l' d') :
    l = l' := by
  induction h generalizing l' with
  | last hx hd =>
    cases h' with
    | last => rfl
    | hop hx' _ hway =>
      cases hx.symm.trans hx'
      obtain ⟨z, hz⟩ := hway.next_eq
      cases (hgoal _ hd).symm.trans hz
  | hop hx _ hway ih =>
    cases h' with
    | last hx' hd' =>
      cases hx.symm.trans hx'
      obtain ⟨z, hz⟩ := hway.next_eq
      cases (hgoal _ hd').symm.trans hz
    | hop hx' _ hway' =>
      cases hx.symm.trans hx'
      rw [ih hway']

theorem not_mem (h : Way next goal relays x l d) : x ∉ l := by
  intro hx
  obtain ⟨l', hway, hlt⟩ := h.of_mem hx
  rw [h.unique hgoal hway] at hlt
  exact Nat.lt_irrefl _ hlt

theorem nodup (h : Way next goal relays x l d) : (x :: l ++ [d]).Nodup := by
  have hne : ∀ {x l d}, Way next goal relays x l d → x ≠ d := by
    intro x l d h hx
    obtain ⟨y, hy⟩ := h.next_eq
    rw [hx, hgoal d h.ends] at hy
    cases hy
  induction h with
  | last hx hd =>
    exact List.nodup_cons.mpr ⟨fun hmem => hne (.last hx hd) (List.mem_singleton.mp hmem), List.nodup_singleton _⟩
  | hop hx hrelays hway ih =>
    have h := Way.hop hx hrelays hway
    refine List.nodup_cons.mpr ⟨fun hmem => ?_, ih⟩
    rcases List.mem_append.mp hmem with hmem | hmem
    · exact h.not_mem hgoal hmem
    · exact hne h (List.mem_singleton.mp hmem)

end Way

/-! ### Setting a pointer -/

theorem Onward.way (h : Onward next goal relays i y) (hi : next' i = some y) (hsame : ∀ z, z ≠ i → next' z = next z) :
    ∃ l d, Way next' goal relays i l d := by
  rcases h with hgoal | ⟨hrelays, l, d, hway, hnot⟩
  · exact ⟨[], y, .last hi hgoal⟩
  · exact ⟨y :: l, d, .hop hi hrelays (hway.congr fun z hz => hsame z fun hzi => hnot (hzi ▸ hz))⟩

theorem Way.redirect (h : Way next goal relays x l d) (hsame : ∀ z, z ≠ i → next' z = next z)
    (hi : ∃ l d, Way next' goal relays i l d) : ∃ l d, Way next' goal relays x l d := by
  induction h with
  | @last x d hx hgoal =>
    by_cases hxi : x = i
    · exact hxi ▸ hi
    · exact ⟨[], d, .last ((hsame x hxi).trans hx) hgoal⟩
  | @hop x y d l hx hrelays _ ih =>
    by_cases hxi : x = i
    · exact hxi ▸ hi
    · obtain ⟨l', d', hway⟩ := ih
      exact ⟨y :: l', d', .hop ((hsame x hxi).trans hx) hrelays hway⟩

theorem ways_set (hways : ∀ x y, next x = some y → ∃ l d, Way next goal relays x l d)
    (hsame : ∀ z, z ≠ i → next' z = next z)
    (hi : next' i = next i ∨ ∃ y, next' i = some y ∧ Onward next goal relays i y) :
    ∀ x y, next' x = some y → ∃ l d, Way next' goal relays x l d := by
  rcases hi with hi | ⟨y, hy, honward⟩
  · obtain rfl : next' = next := funext fun z => by
      by_cases hz : z = i
      · rw [hz, hi]
      · exact hsame z hz
    exact hways
  · have hway := honward.way hy hsame
    intro x z hx
    by_cases hxi : x = i
    · exact hxi ▸ hway
    · obtain ⟨l, d, h⟩ := hways x z ((hsame x hxi).symm.trans hx)
      exact h.redirect hsame hway

end SyncSwarm.Lib
