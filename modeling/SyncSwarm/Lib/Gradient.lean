import Mathlib.Data.Fintype.Card
import Mathlib.Order.RelClasses

/-! Routes along a gradient. A relay tells a greater rank than its entry has, and a node takes an entry only for a
    lower rank; so following the entries leads to an origin, and no node is met twice. -/

namespace SyncSwarm.Lib

/-- The entries, and the ranks that are under way by the nodes that have told them. --/
structure Gradient (ι R : Type) where
  entry : ι → Option (R × ι)
  sent : ι → R → Prop

namespace Gradient

section
variable {ι R : Type} [Preorder R] (origin relays : ι → Prop)

def Backs (g : Gradient ι R) (y : ι) (r : R) : Prop := origin y ∨ relays y ∧ ∃ r₀ z, g.entry y = some (r₀, z) ∧ r₀ < r

structure Sound (g : Gradient ι R) : Prop where
  entry : ∀ x r y, g.entry x = some (r, y) → ¬origin x ∧ g.Backs origin relays y r
  sent : ∀ y r, g.sent y r → g.Backs origin relays y r

/-- What may happen at once: nodes take lower ranks that were sent or `learned` in another way, origins tell ranks of
    depth zero, and relays tell greater ranks, one deeper at most. --/
structure Step (depth : R → Nat) (learned : ι → R → Prop) (g g' : Gradient ι R) : Prop where
  entry : ∀ x, g'.entry x = g.entry x ∨ ∃ r y, g'.entry x = some (r, y) ∧ ¬origin x ∧ (g.sent y r ∨ learned y r) ∧
    ∀ old ∈ g.entry x, r < old.1
  sent : ∀ y r, g'.sent y r → g.sent y r ∨ (origin y ∧ depth r = 0) ∨
    relays y ∧ ∃ r₀ z, g'.entry y = some (r₀, z) ∧ r₀ < r ∧ depth r ≤ depth r₀ + 1

inductive Route (g : Gradient ι R) : ι → List ι → ι → Prop where
  | last {x d : ι} {r : R} : g.entry x = some (r, d) → origin d → Route g x [] d
  | hop {x y z d : ι} {r r₀ : R} {l : List ι} : g.entry x = some (r, y) → relays y → g.entry y = some (r₀, z) → r₀ < r →
    Route g y l d → Route g x (y :: l) d

end

section
variable {ι R : Type} [Preorder R] {origin relays : ι → Prop} {depth : R → Nat} {learned : ι → R → Prop}
  {g g' : Gradient ι R}
variable {x y d : ι} {r r₁ r₂ : R}

theorem Step.lowers (h : Step origin relays depth learned g g') (hx : g.entry x = some (r, y)) :
    ∃ r' y', g'.entry x = some (r', y') ∧ r' ≤ r := by
  rcases h.entry x with hsame | ⟨r', y', hnew, -, -, hlower⟩
  · exact ⟨r, y, hsame.trans hx, le_rfl⟩
  · exact ⟨r', y', hnew, (hlower _ hx).le⟩

theorem Step.backs (h : Step origin relays depth learned g g') (hy : g.Backs origin relays y r) :
    g'.Backs origin relays y r := by
  rcases hy with horigin | ⟨hrelays, r₀, z, hentry, hlt⟩
  · exact .inl horigin
  · obtain ⟨r', z', hentry', hle⟩ := h.lowers hentry
    exact .inr ⟨hrelays, r', z', hentry', hle.trans_lt hlt⟩

theorem Sound.step (hg : g.Sound origin relays) (h : Step origin relays depth learned g g')
    (hlearned : ∀ y r, learned y r → g.Backs origin relays y r) : g'.Sound origin relays := by
  constructor
  · intro x r y hx
    rcases h.entry x with hsame | ⟨r', y', hnew, horigin, hbacked, -⟩
    · obtain ⟨horigin, hbacks⟩ := hg.entry x r y (hsame ▸ hx)
      exact ⟨horigin, h.backs hbacks⟩
    · rw [hnew] at hx
      cases hx
      refine ⟨horigin, h.backs ?_⟩
      rcases hbacked with hsent | hlearn
      · exact hg.sent y r hsent
      · exact hlearned y r hlearn
  · intro y r hsent
    rcases h.sent y r hsent with hold | ⟨horigin, -⟩ | ⟨hrelays, r₀, z, hentry, hlt, -⟩
    · exact h.backs (hg.sent y r hold)
    · exact .inl horigin
    · exact .inr ⟨hrelays, r₀, z, hentry, hlt⟩

def Lower (g : Gradient ι R) (y x : ι) : Prop :=
  ∃ r₁ r₂, (g.entry y).map Prod.fst = some r₁ ∧ (g.entry x).map Prod.fst = some r₂ ∧ r₁ < r₂

theorem Lower.irrefl (x : ι) : ¬g.Lower x x := by
  rintro ⟨r₁, r₂, h₁, h₂, hlt⟩
  rw [h₁] at h₂
  cases h₂
  exact lt_irrefl _ hlt

theorem Lower.trans {z : ι} (hxy : g.Lower x y) (hyz : g.Lower y z) : g.Lower x z := by
  obtain ⟨r₁, r₂, h₁, h₂, hlt⟩ := hxy
  obtain ⟨r₂', r₃, h₂', h₃, hlt'⟩ := hyz
  rw [h₂] at h₂'
  cases h₂'
  exact ⟨r₁, r₃, h₁, h₃, hlt.trans hlt'⟩

theorem lower_wellFounded [Finite ι] (g : Gradient ι R) : WellFounded g.Lower :=
  have : IsTrans ι g.Lower := ⟨fun _ _ _ => Lower.trans⟩
  have : Std.Irrefl g.Lower := ⟨Lower.irrefl⟩
  Finite.wellFounded_of_trans_of_irrefl g.Lower

theorem lower_of_entry {z : ι} (hx : g.entry x = some (r, z)) {z' : ι} (hy : g.entry y = some (r₁, z')) (hlt : r₁ < r) :
    g.Lower y x :=
  ⟨r₁, r, by rw [hy]; rfl, by rw [hx]; rfl, hlt⟩

theorem Sound.route [Finite ι] (hg : g.Sound origin relays) (hx : g.entry x = some (r, y)) :
    ∃ l d, g.Route origin relays x l d := by
  induction x using g.lower_wellFounded.induction generalizing r y with
  | _ x ih =>
    rcases (hg.entry x r y hx).2 with horigin | ⟨hrelays, r₀, z, hy, hlt⟩
    · exact ⟨[], y, .last hx horigin⟩
    · obtain ⟨l, d, hroute⟩ := ih y (lower_of_entry hx hy hlt) hy
      exact ⟨y :: l, d, .hop hx hrelays hy hlt hroute⟩

theorem Route.forall_relays {l : List ι} (h : g.Route origin relays x l d) : ∀ m ∈ l, relays m := by
  induction h with
  | last => exact nofun
  | hop hx hrelays hy hlt hroute ih =>
    intro m hm
    rcases List.mem_cons.mp hm with rfl | hm
    · exact hrelays
    · exact ih m hm

theorem Route.lower {l : List ι} (h : g.Route origin relays x l d) : ∀ m ∈ l, g.Lower m x := by
  induction h with
  | last => exact nofun
  | hop hx hrelays hy hlt hroute ih =>
    intro m hm
    rcases List.mem_cons.mp hm with rfl | hm
    · exact lower_of_entry hx hy hlt
    · exact (ih m hm).trans (lower_of_entry hx hy hlt)

theorem Route.ends {l : List ι} (h : g.Route origin relays x l d) : origin d := by
  induction h with
  | last _ horigin => exact horigin
  | hop _ _ _ _ _ ih => exact ih

theorem Route.nodup {l : List ι} (hg : g.Sound origin relays) (h : g.Route origin relays x l d) :
    (x :: l ++ [d]).Nodup := by
  induction h with
  | last hx horigin =>
    refine List.nodup_cons.mpr ⟨fun hmem => ?_, List.nodup_singleton _⟩
    obtain rfl := List.mem_singleton.mp hmem
    exact (hg.entry _ _ _ hx).1 horigin
  | @hop x y z d r r₀ l hx hrelays hy hlt hroute ih =>
    refine List.nodup_cons.mpr ⟨fun hmem => ?_, ih⟩
    rcases List.mem_append.mp hmem with hmem | hmem
    · exact Lower.irrefl x ((Route.hop hx hrelays hy hlt hroute).lower x hmem)
    · obtain rfl := List.mem_singleton.mp hmem
      exact (hg.entry _ _ _ hx).1 hroute.ends

end

/-! ### Depth -/

section
variable {ι R : Type} [Preorder R] [Fintype ι]

open Classical in
noncomputable def below (g : Gradient ι R) (r : R) : Finset ι := {z | ∃ r₀ y, g.entry z = some (r₀, y) ∧ r₀ < r}

open Classical in
noncomputable def upTo (g : Gradient ι R) (r : R) : Finset ι := {z | ∃ r₀ y, g.entry z = some (r₀, y) ∧ r₀ ≤ r}

theorem mem_below {g : Gradient ι R} {r : R} {z : ι} : z ∈ g.below r ↔ ∃ r₀ y, g.entry z = some (r₀, y) ∧ r₀ < r := by
  simp [below]

theorem mem_upTo {g : Gradient ι R} {r : R} {z : ι} : z ∈ g.upTo r ↔ ∃ r₀ y, g.entry z = some (r₀, y) ∧ r₀ ≤ r := by
  simp [upTo]

/-- A rank is no deeper than there are nodes with lower ones. --/
structure Counted (depth : R → Nat) (g : Gradient ι R) : Prop where
  entry : ∀ x r y, g.entry x = some (r, y) → depth r < (g.upTo r).card
  sent : ∀ y r, g.sent y r → depth r ≤ (g.below r).card

variable {origin relays : ι → Prop} {depth : R → Nat} {learned : ι → R → Prop} {g g' : Gradient ι R}

theorem Step.below_subset (h : Step origin relays depth learned g g') (r : R) : g.below r ⊆ g'.below r := by
  intro z hz
  obtain ⟨r₀, y, hentry, hlt⟩ := mem_below.mp hz
  obtain ⟨r', y', hentry', hle⟩ := h.lowers hentry
  exact mem_below.mpr ⟨r', y', hentry', hle.trans_lt hlt⟩

theorem Step.upTo_subset (h : Step origin relays depth learned g g') (r : R) : g.upTo r ⊆ g'.upTo r := by
  intro z hz
  obtain ⟨r₀, y, hentry, hle⟩ := mem_upTo.mp hz
  obtain ⟨r', y', hentry', hle'⟩ := h.lowers hentry
  exact mem_upTo.mpr ⟨r', y', hentry', hle'.trans hle⟩

theorem below_subset_upTo (g : Gradient ι R) (r : R) : g.below r ⊆ g.upTo r := by
  intro z hz
  obtain ⟨r₀, y, hentry, hlt⟩ := mem_below.mp hz
  exact mem_upTo.mpr ⟨r₀, y, hentry, hlt.le⟩

theorem upTo_subset_below (g : Gradient ι R) {r₀ r : R} (hlt : r₀ < r) : g.upTo r₀ ⊆ g.below r := by
  intro z hz
  obtain ⟨r', y, hentry, hle⟩ := mem_upTo.mp hz
  exact mem_below.mpr ⟨r', y, hentry, hle.trans_lt hlt⟩

theorem Step.card_lt (h : Step origin relays depth learned g g') {x y : ι} {r : R} (hnew : g'.entry x = some (r, y))
    (hlower : ∀ old ∈ g.entry x, r < old.1) : (g.below r).card < (g'.upTo r).card := by
  refine Finset.card_lt_card
    (Finset.ssubset_iff_of_subset ((h.below_subset r).trans (g'.below_subset_upTo r)) |>.mpr ⟨x, ?_, ?_⟩)
  · exact mem_upTo.mpr ⟨r, y, hnew, le_rfl⟩
  · intro hmem
    obtain ⟨r₀, z, hentry, hlt⟩ := mem_below.mp hmem
    exact lt_asymm hlt (hlower _ hentry)

theorem Counted.step (hg : g.Counted depth) (h : Step origin relays depth learned g g')
    (hlearned : ∀ y r, ¬learned y r) :
    g'.Counted depth := by
  have hentry : ∀ x r y, g'.entry x = some (r, y) → depth r < (g'.upTo r).card := by
    intro x r y hx
    rcases h.entry x with hsame | ⟨r', y', hnew, -, hsent | hlearn, hlower⟩
    · exact (hg.entry x r y (hsame ▸ hx)).trans_le (Finset.card_le_card (h.upTo_subset r))
    · rw [hnew] at hx
      cases hx
      exact (hg.sent y r hsent).trans_lt (h.card_lt hnew hlower)
    · exact absurd hlearn (hlearned y' r')
  refine ⟨hentry, fun y r hsent => ?_⟩
  rcases h.sent y r hsent with hold | ⟨-, hzero⟩ | ⟨-, r₀, z, hy, hlt, hdepth⟩
  · exact (hg.sent y r hold).trans (Finset.card_le_card (h.below_subset r))
  · exact hzero ▸ Nat.zero_le _
  · calc depth r ≤ depth r₀ + 1 := hdepth
      _ ≤ (g'.upTo r₀).card := hentry y r₀ z hy
      _ ≤ (g'.below r).card := Finset.card_le_card (g'.upTo_subset_below hlt)

theorem Counted.depth_lt (hg : g.Counted depth) {x y : ι} {r : R} (hx : g.entry x = some (r, y)) :
    depth r < Fintype.card ι :=
  (hg.entry x r y hx).trans_le (Finset.card_le_univ _)

end

end Gradient
end SyncSwarm.Lib
