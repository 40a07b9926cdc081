import Mathlib.Data.List.Infix

/-! Counting rounds. A process collects inputs until what it has collected is enough, counts one round, and starts again
    from nothing. -/

namespace SyncSwarm.Lib

variable {α : Type} (Full : List α → Prop) [DecidablePred Full]

/-- The number of rounds that the inputs complete, the first one with the head start `cur`. --/
def rounds : List α → List α → Nat
  | _, [] => 0
  | cur, a :: l => if Full (cur ++ [a]) then rounds [] l + 1 else rounds (cur ++ [a]) l

def CutsInto (l : List α) (ps : List (List α)) : Prop := (∀ p ∈ ps, Full p) ∧ ps.flatten <+: l

variable {Full}

theorem exists_cutsInto_rounds (cur l : List α) :
    ∃ ps, CutsInto Full (cur ++ l) ps ∧ ps.length = rounds Full cur l := by
  induction l generalizing cur with
  | nil => exact ⟨[], ⟨nofun, List.nil_prefix⟩, rfl⟩
  | cons a l ih =>
    rw [rounds]
    split
    next hfull =>
      obtain ⟨ps, ⟨hall, hpre⟩, hlen⟩ := ih []
      refine ⟨(cur ++ [a]) :: ps, ⟨?_, ?_⟩, by rw [List.length_cons, hlen]⟩
      · intro p hp
        rcases List.mem_cons.mp hp with rfl | hp
        · exact hfull
        · exact hall p hp
      · rw [List.flatten_cons, List.append_cons cur a l, List.prefix_append_right_inj]
        exact hpre
    · obtain ⟨ps, hcut, hlen⟩ := ih (cur ++ [a])
      exact ⟨ps, by rwa [List.append_cons], hlen⟩

section
variable (mono : ∀ pre p post : List α, Full p → Full (pre ++ p ++ post))
include mono

theorem length_le_rounds (hnil : ¬Full []) {cur l : List α} (hcur : ¬Full cur) {ps : List (List α)}
    (h : CutsInto Full (cur ++ l) ps) : ps.length ≤ rounds Full cur l := by
  induction l generalizing cur ps with
  | nil =>
    cases ps with
    | nil => exact Nat.le_refl _
    | cons p qs =>
      -- The first part would lie inside `cur`, which is not sufficient.
      obtain ⟨rest, hrest⟩ := h.2
      rw [List.append_nil, List.flatten_cons, List.append_assoc] at hrest
      exact absurd (hrest ▸ mono [] p _ (h.1 p List.mem_cons_self)) hcur
  | cons a l ih =>
    rw [rounds]
    split
    next hfull =>
      cases ps with
      | nil => exact Nat.zero_le _
      | cons p qs =>
        obtain ⟨rest, hrest⟩ := h.2
        rw [List.flatten_cons, List.append_assoc, List.append_cons cur a l] at hrest
        have hp : Full p := h.1 p List.mem_cons_self
        -- The first part reaches beyond `cur`, so it includes `a`; what follows it is cut by the other parts.
        obtain ⟨p', rfl, hl⟩ : ∃ p', p = cur ++ [a] ++ p' ∧ p' ++ (qs.flatten ++ rest) = l := by
          rcases List.append_eq_append_iff.mp hrest with ⟨d, hd, hl⟩ | ⟨d, hd, hl⟩
          · cases d using List.reverseRecOn with
            | nil => exact ⟨[], by simpa using hd.symm, by simpa using hl⟩
            | append_singleton d b =>
              rw [← List.append_assoc] at hd
              have hcd := (List.append_inj' hd rfl).1
              exact absurd (hcd ▸ mono [] p d hp) hcur
          · exact ⟨d, hd, hl.symm⟩
        cases qs with
        | nil => exact Nat.succ_le_succ (Nat.zero_le _)
        | cons q qs =>
          have hq : Full q := h.1 q (List.mem_cons_of_mem _ List.mem_cons_self)
          have hcut : CutsInto Full ([] ++ l) ((p' ++ q) :: qs) := by
            refine ⟨?_, ⟨rest, by simpa using hl⟩⟩
            intro r hr
            rcases List.mem_cons.mp hr with rfl | hr
            · simpa using mono p' q [] hq
            · exact h.1 r (List.mem_cons_of_mem _ (List.mem_cons_of_mem _ hr))
          have hle := ih hnil hcut
          simp only [List.length_cons] at hle ⊢
          omega
    · next hnot => exact ih hnot (by rwa [← List.append_cons])

theorem le_rounds_iff (hnil : ¬Full []) {l : List α} {k : Nat} :
    k ≤ rounds Full [] l ↔ ∃ ps, CutsInto Full l ps ∧ ps.length = k := by
  constructor
  · intro hk
    have hex : ∃ ps, CutsInto Full ([] ++ l) ps ∧ ps.length = rounds Full [] l := exists_cutsInto_rounds [] l
    obtain ⟨ps, ⟨hall, hpre⟩, hlen⟩ := hex
    refine ⟨ps.take k, ⟨fun p hp => hall p (List.mem_of_mem_take hp), ?_⟩, by rw [List.length_take]; omega⟩
    refine List.IsPrefix.trans ⟨(ps.drop k).flatten, ?_⟩ hpre
    rw [← List.flatten_append, List.take_append_drop]
  · rintro ⟨ps, hcut, rfl⟩
    exact length_le_rounds mono hnil hnil hcut

end

end SyncSwarm.Lib
