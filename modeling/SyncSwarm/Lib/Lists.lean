import Mathlib.Algebra.GroupWithZero.Nat
import Mathlib.Data.List.AList
import Mathlib.Data.List.DropRight

/-! Lists as the arrays of an imperative program. -/

namespace SyncSwarm.Lib

/-! ### Writing at several places -/

section setAll
variable {α : Type}

def setAll (l : List α) (places : List Nat) (v : α) : List α := places.foldl (fun l i => l.set i v) l

@[simp] theorem length_setAll (l : List α) (places : List Nat) (v : α) : (setAll l places v).length = l.length := by
  induction places generalizing l with
  | nil => rfl
  | cons i is ih => exact (ih (l.set i v)).trans List.length_set

theorem getElem?_setAll (l : List α) (places : List Nat) (v : α) (j : Nat) :
    (setAll l places v)[j]? = if j ∈ places then l[j]?.map fun _ => v else l[j]? := by
  induction places generalizing l with
  | nil => simp [setAll]
  | cons i is ih =>
    show (setAll (l.set i v) is v)[j]? = _
    rw [ih, List.getElem?_set']
    by_cases hi : i = j
    · subst hi
      cases l[i]? <;> simp
    · simp [hi, Ne.symm hi]

end setAll

/-! ### The first unset flag -/

/-- The first place at or after `from` whose flag is not set, or the end. --/
def nextGap (flags : List Bool) (start : Nat) : Nat := start + ((flags.drop start).takeWhile id).length

theorem le_nextGap (flags : List Bool) (start : Nat) : start ≤ nextGap flags start := Nat.le_add_right _ _

theorem nextGap_le {flags : List Bool} {start : Nat} (h : start ≤ flags.length) :
    nextGap flags start ≤ flags.length := by
  have := (List.takeWhile_sublist id (l := flags.drop start)).length_le
  rw [List.length_drop] at this
  unfold nextGap
  omega

theorem flag_of_lt_nextGap {flags : List Bool} {start i : Nat} (h : start ≤ i) (hi : i < nextGap flags start) :
    flags[i]? = some true := by
  have hlt : i - start < ((flags.drop start).takeWhile id).length := by unfold nextGap at hi; omega
  have hmem := List.mem_takeWhile_imp (List.getElem_mem hlt)
  have hat := (List.takeWhile_prefix id (l := flags.drop start)).getElem hlt
  have : (flags.drop start)[i - start]? = some true := by
    rw [List.getElem?_eq_getElem (Nat.lt_of_lt_of_le hlt (List.takeWhile_sublist id).length_le), ← hat]
    simpa using hmem
  rwa [List.getElem?_drop, Nat.add_sub_cancel' h] at this

theorem flag_nextGap_ne (flags : List Bool) (start : Nat) : flags[nextGap flags start]? ≠ some true := by
  have key : ∀ l : List Bool, l[(l.takeWhile id).length]? ≠ some true := by
    intro l
    induction l with
    | nil => simp
    | cons b l ih => cases b <;> simp [ih]
  have := key (flags.drop start)
  rwa [List.getElem?_drop] at this

/-! ### Longer lists -/

theorem getElem?_mono {α : Type} {xs ys : List α} (h : xs <+: ys) {i : Nat} {a : α} (ha : xs[i]? = some a) :
    ys[i]? = some a := by
  obtain ⟨hlt, rfl⟩ := List.getElem?_eq_some_iff.mp ha
  exact List.prefix_iff_getElem?.mp h i hlt

theorem modify_append_single {α : Type} (xs : List α) (a : α) (f : α → α) :
    (xs ++ [a]).modify xs.length f = xs ++ [f a] := by
  induction xs with
  | nil => rfl
  | cons x xs ih => exact congrArg (x :: ·) ih

theorem getElem?_modify_eq_some {α : Type} {xs : List α} {f : α → α} {i j : Nat} {b : α}
    (h : (xs.modify i f)[j]? = some b) :
    ∃ a, xs[j]? = some a ∧ (i = j ∧ b = f a ∨ i ≠ j ∧ b = a) := by
  rw [List.getElem?_modify] at h
  obtain ⟨a, ha, rfl⟩ := Option.map_eq_some_iff.mp h
  refine ⟨a, ha, ?_⟩
  by_cases hij : i = j
  · exact .inl ⟨hij, if_pos hij⟩
  · exact .inr ⟨hij, if_neg hij⟩

theorem getElem?_set_eq_some {α : Type} {xs : List α} {i j : Nat} {a b : α} (h : (xs.set i a)[j]? = some b) :
    i = j ∧ b = a ∨ i ≠ j ∧ xs[j]? = some b := by
  by_cases hij : i = j
  · subst hij
    rw [List.getElem?_set_self'] at h
    obtain ⟨_, -, rfl⟩ := Option.map_eq_some_iff.mp h
    exact .inl ⟨rfl, rfl⟩
  · rw [List.getElem?_set_ne hij] at h
    exact .inr ⟨hij, h⟩

theorem mem_append_single {α : Type} {xs : List α} {a b : α} : b ∈ xs ++ [a] ↔ b ∈ xs ∨ b = a := by
  rw [List.mem_append, List.mem_singleton]

theorem lt_of_getElem? {α : Type} {xs : List α} {i : Nat} {a : α} (h : xs[i]? = some a) : i < xs.length :=
  (List.getElem?_eq_some_iff.mp h).1

theorem getElem?_append_single {α : Type} {xs : List α} {a b : α} {i : Nat} (h : (xs ++ [a])[i]? = some b) :
    xs[i]? = some b ∨ i = xs.length ∧ a = b := by
  rcases Nat.lt_trichotomy i xs.length with hlt | rfl | hgt
  · rw [List.getElem?_append_left hlt] at h
    exact .inl h
  · rw [List.getElem?_concat_length] at h
    exact .inr ⟨rfl, Option.some.inj h⟩
  · rw [List.getElem?_eq_none (by rw [List.length_append]; exact hgt)] at h
    cases h

theorem length_filter_range {α : Type} (l : List α) (p : α → Bool) :
    ((List.range l.length).filter fun i => l[i]?.any p).length = l.countP p := by
  induction l with
  | nil => rfl
  | cons a l ih =>
    rw [List.length_cons, List.range_succ_eq_map, List.filter_cons, List.filter_map, List.countP_cons, ← ih]
    by_cases ha : p a
    · simp [ha, Function.comp_def]
    · simp [ha, Function.comp_def]

/-! ### The least element -/

def firstMin {α : Type} (lt : α → α → Bool) (l : List α) : Option α :=
  l.foldl (fun least a => some (least.elim a fun b => if lt a b then a else b)) none

theorem firstMin_mem {α : Type} {lt : α → α → Bool} {l : List α} {a : α} (h : firstMin lt l = some a) : a ∈ l := by
  have hfold : ∀ (l : List α) (least : Option α),
      l.foldl (fun least a => some (least.elim a fun b => if lt a b then a else b)) least = some a → a ∈ l ∨
        least = some a := by
    intro l
    induction l with
    | nil => exact fun _ h => .inr h
    | cons x l ih =>
      intro least h
      rcases ih _ h with hmem | hx
      · exact .inl (List.mem_cons_of_mem x hmem)
      · cases least with
        | none => exact .inl (Option.some.inj hx ▸ List.mem_cons_self)
        | some b =>
          by_cases hlt : lt x b
          · simp only [Option.elim_some, hlt, if_true] at hx
            exact .inl (Option.some.inj hx ▸ List.mem_cons_self)
          · simp only [Option.elim_some, hlt] at hx
            exact .inr hx
  exact (hfold l none h).resolve_right fun h => by cases h

theorem firstMin_le {α : Type} {f : α → Nat} {l : List α} {a : α} (h : firstMin (fun x y => f x < f y) l = some a) :
    ∀ x ∈ l, f a ≤ f x := by
  have hfold : ∀ (l : List α) (b : α), l.foldl (fun least a => some (least.elim a fun b => if f a < f b then a else b))
    (some b) = some a →
      ∀ x ∈ b :: l, f a ≤ f x := by
    intro l
    induction l with
    | nil =>
      intro b hb x hx
      simp_all
    | cons y l ih =>
      intro b hb x hx
      have hle := ih _ hb
      simp only [Option.elim_some, List.mem_cons, forall_eq_or_imp] at hle hx
      rcases hx with rfl | rfl | hx
      · exact hle.1.trans (by split <;> omega)
      · exact hle.1.trans (by split <;> omega)
      · exact hle.2 x hx
  cases l with
  | nil => cases h
  | cons b l => exact hfold l b (by simpa [firstMin] using h)

theorem firstMin_ne_none {α : Type} {lt : α → α → Bool} {l : List α} (h : l ≠ []) : firstMin lt l ≠ none := by
  have hfold : ∀ (l : List α) (a : α),
      l.foldl (fun least a => some (least.elim a fun b => if lt a b then a else b)) (some a) ≠ none := by
    intro l
    induction l with
    | nil => exact fun a => Option.some_ne_none a
    | cons x l ih => exact fun a => ih _
  obtain ⟨a, l, rfl⟩ := List.exists_cons_of_ne_nil h
  exact hfold l a

/-! ### Counting -/

section Place
variable {α : Type} {l : List α} {i : Nat} {a : α} (h : l[i]? = some a)
include h

theorem eq_take_cons_drop : l = l.take i ++ a :: l.drop (i + 1) := by
  obtain ⟨hi, rfl⟩ := List.getElem?_eq_some_iff.mp h
  simp

theorem set_eq_take_cons_drop (b : α) : l.set i b = l.take i ++ b :: l.drop (i + 1) := by
  rw [List.set_eq_take_append_cons_drop, if_pos (List.getElem?_eq_some_iff.mp h).1]

theorem countP_set_add (b : α) (p : α → Bool) : (l.set i b).countP p + (p a).toNat = l.countP p + (p b).toNat := by
  have hcount : ∀ x, (if p x = true then 1 else 0) = (p x).toNat := fun x => by cases p x <;> rfl
  conv_rhs => rw [eq_take_cons_drop h]
  simp only [set_eq_take_cons_drop h, List.countP_append, List.countP_cons, hcount]
  omega

theorem map_set_of_eq {β : Type} {b : α} (f : α → β) (hb : f b = f a) : (l.set i b).map f = l.map f := by
  conv_rhs => rw [eq_take_cons_drop h]
  rw [set_eq_take_cons_drop h, List.map_append, List.map_append, List.map_cons, List.map_cons, hb]

end Place

theorem countP_add_le {α : Type} {l : List α} {p q r s : α → Bool} (hor : ∀ a ∈ l, p a ∨ q a → r a)
    (hand : ∀ a ∈ l, p a → q a → s a) : l.countP p + l.countP q ≤ l.countP r + l.countP s := by
  induction l with
  | nil => simp
  | cons a l ih =>
    have hrest := ih (fun b hb => hor b (List.mem_cons_of_mem a hb)) fun b hb => hand b (List.mem_cons_of_mem a hb)
    have hr := hor a List.mem_cons_self
    have hs := hand a List.mem_cons_self
    simp only [List.countP_cons]
    by_cases hp : p a <;> by_cases hq : q a <;> simp_all <;> omega

theorem flatMap_eq_of_place {α β : Type} {l : List α} {f : α → List β} {i : Nat} {a : α} (hi : l[i]? = some a)
    (h : ∀ j b, l[j]? = some b → j ≠ i → f b = []) : l.flatMap f = f a := by
  induction l generalizing i with
  | nil => simp at hi
  | cons x l ih =>
    rw [List.flatMap_cons]
    cases i with
    | zero =>
      obtain rfl : x = a := Option.some.inj hi
      have hrest : l.flatMap f = [] := by
        refine List.flatMap_eq_nil_iff.mpr fun b hb => ?_
        obtain ⟨j, hj⟩ := List.mem_iff_getElem?.mp hb
        exact h (j + 1) b hj (Nat.succ_ne_zero j)
      rw [hrest, List.append_nil]
    | succ i =>
      rw [h 0 x rfl (Nat.succ_ne_zero i).symm, List.nil_append]
      exact ih hi fun j b hj hne => h (j + 1) b hj fun heq => hne (Nat.succ.inj heq)

end SyncSwarm.Lib
