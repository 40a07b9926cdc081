import Mathlib.Logic.Basic

/-! Systems given by a step function. A run performs a list of actions in order; what every step
    keeps, every run keeps. -/

namespace SyncSwarm.Lib

variable {σ α : Type} {step : σ → α → Option σ}

def exec (step : σ → α → Option σ) : σ → List α → Option σ
  | s, [] => some s
  | s, a :: as => (step s a).bind fun t => exec step t as

@[simp] theorem exec_nil (s : σ) : exec step s [] = some s := rfl

theorem exec_cons {s u : σ} {a : α} {as : List α} :
    exec step s (a :: as) = some u ↔ ∃ t, step s a = some t ∧ exec step t as = some u :=
  Option.bind_eq_some_iff

theorem exec_append {s u : σ} {as bs : List α} :
    exec step s (as ++ bs) = some u ↔ ∃ t, exec step s as = some t ∧ exec step t bs = some u := by
  induction as generalizing s with
  | nil => simp
  | cons a as ih =>
    rw [List.cons_append, exec_cons]
    constructor
    · rintro ⟨t, ht, hu⟩
      obtain ⟨t', ht', hu'⟩ := ih.mp hu
      exact ⟨t', exec_cons.mpr ⟨t, ht, ht'⟩, hu'⟩
    · rintro ⟨t', ht', hu⟩
      obtain ⟨t, ht, ht'⟩ := exec_cons.mp ht'
      exact ⟨t, ht, ih.mpr ⟨t', ht', hu⟩⟩

theorem exec_single {s t : σ} {a : α} : exec step s [a] = some t ↔ step s a = some t := by
  simp [exec]

theorem exec_keeps {P : σ → Prop} (keep : ∀ s a t, P s → step s a = some t → P t) {s t : σ} {as : List α}
    (h : P s) (hr : exec step s as = some t) : P t := by
  induction as generalizing s with
  | nil => cases hr; exact h
  | cons a as ih =>
    obtain ⟨u, hu, hr⟩ := exec_cons.mp hr
    exact ih (keep s a u h hu) hr

/-- Every step of the run meets the condition `C` on the action and the state before it. --/
def Along (step : σ → α → Option σ) (C : σ → α → Prop) : σ → List α → Prop
  | _, [] => True
  | s, a :: as => C s a ∧ ∀ t, step s a = some t → Along step C t as

instance Along.decidable {C : σ → α → Prop} [∀ s a, Decidable (C s a)] : ∀ s as, Decidable (Along step C s as)
  | _, [] => isTrue trivial
  | s, a :: as =>
    match hstep : step s a with
    | none => decidable_of_iff (C s a) ⟨fun h => ⟨h, fun _ ht => nomatch hstep.symm.trans ht⟩, And.left⟩
    | some t =>
      have : Decidable (Along step C t as) := Along.decidable t as
      decidable_of_iff (C s a ∧ Along step C t as)
        ⟨fun h => ⟨h.1, fun _ hu => Option.mem_unique hstep hu ▸ h.2⟩, fun h => ⟨h.1, h.2 t hstep⟩⟩

theorem Along.mono {C D : σ → α → Prop} (h : ∀ s a, C s a → D s a) {s : σ} {as : List α}
    (ha : Along step C s as) : Along step D s as := by
  induction as generalizing s with
  | nil => exact trivial
  | cons a as ih => exact ⟨h s a ha.1, fun t ht => ih (ha.2 t ht)⟩

theorem Along.and {C D : σ → α → Prop} {s : σ} {as : List α} (hC : Along step C s as) (hD : Along step D s as) :
    Along step (fun s a => C s a ∧ D s a) s as := by
  induction as generalizing s with
  | nil => exact trivial
  | cons a as ih => exact ⟨⟨hC.1, hD.1⟩, fun t ht => ih (hC.2 t ht) (hD.2 t ht)⟩

theorem Along.of_forall {C : σ → α → Prop} {s : σ} {as : List α} (h : ∀ a ∈ as, ∀ s, C s a) : Along step C s as := by
  induction as generalizing s with
  | nil => exact trivial
  | cons a as ih => exact ⟨h a List.mem_cons_self s, fun t _ => ih fun b hb => h b (List.mem_cons_of_mem a hb)⟩

theorem Along.of_append {C : σ → α → Prop} {s t : σ} {as bs : List α} (h : Along step C s (as ++ bs))
    (hr : exec step s as = some t) :
    Along step C s as ∧ Along step C t bs := by
  induction as generalizing s with
  | nil => cases hr; exact ⟨trivial, h⟩
  | cons a as ih =>
    obtain ⟨u, hu, hr⟩ := exec_cons.mp hr
    refine ⟨⟨h.1, fun v hv => ?_⟩, (ih (h.2 u hu) hr).2⟩
    cases hu.symm.trans hv
    exact (ih (h.2 u hu) hr).1

theorem exec_keeps_along {C : σ → α → Prop} {P : σ → Prop}
    (keep : ∀ s a t, C s a → P s → step s a = some t → P t) {s t : σ} {as : List α} (h : P s)
    (ha : Along step C s as) (hr : exec step s as = some t) : P t := by
  induction as generalizing s with
  | nil => cases hr; exact h
  | cons a as ih =>
    obtain ⟨u, hu, hr⟩ := exec_cons.mp hr
    exact ih (keep s a u ha.1 h hu) (ha.2 u hu) hr

section
variable {β : Type} {out : σ → α → List β}

def outputs (step : σ → α → Option σ) (out : σ → α → List β) : σ → List α → List β
  | _, [] => []
  | s, a :: as => out s a ++ (step s a).elim [] fun t => outputs step out t as

/-- What the steps that meet `C` keep, of the state and of what was put out so far. --/
theorem outputs_keep_along {C : σ → α → Prop} {P : σ → List β → Prop}
    (keep : ∀ s a t l, C s a → P s l → step s a = some t → P t (l ++ out s a)) {s t : σ} {as : List α} {l : List β}
    (h : P s l) (ha : Along step C s as) (hr : exec step s as = some t) : P t (l ++ outputs step out s as) := by
  induction as generalizing s l with
  | nil =>
    cases hr
    rwa [outputs, List.append_nil]
  | cons a as ih =>
    obtain ⟨u, hu, hr⟩ := exec_cons.mp hr
    rw [outputs, hu, Option.elim_some, ← List.append_assoc]
    exact ih (keep s a u l ha.1 h hu) (ha.2 u hu) hr

end

/-! ### What can still be reached -/

def Leads (step : σ → α → Option σ) (Good : α → Prop) (P : σ → Prop) (s : σ) : Prop :=
  ∃ as t, (∀ a ∈ as, Good a) ∧ exec step s as = some t ∧ P t

namespace Leads
variable {Good : α → Prop} {P Q : σ → Prop} {s t : σ}

theorem now (h : P s) : Leads step Good P s := ⟨[], s, nofun, rfl, h⟩

theorem after {a : α} (ha : Good a) (hs : step s a = some t) (h : Leads step Good P t) : Leads step Good P s := by
  obtain ⟨as, u, has, hu, hP⟩ := h
  refine ⟨a :: as, u, ?_, exec_cons.mpr ⟨t, hs, hu⟩, hP⟩
  intro b hb
  rcases List.mem_cons.mp hb with rfl | hb
  · exact ha
  · exact has b hb

end Leads

/-- A property that no good action leaves rules out everything it excludes. --/
theorem not_leads {Good : α → Prop} {P Q : σ → Prop} (keep : ∀ s a t, P s → Good a → step s a = some t → P t)
    (hQ : ∀ s, P s → ¬Q s) {s : σ} (h : P s) : ¬Leads step Good Q s := by
  rintro ⟨as, t, has, hrun, hq⟩
  refine hQ t ?_ hq
  clear hq
  induction as generalizing s with
  | nil => cases hrun; exact h
  | cons a as ih =>
    obtain ⟨u, hu, hrun⟩ := exec_cons.mp hrun
    exact ih (keep s a u h (has a List.mem_cons_self) hu) (fun b hb => has b (List.mem_cons_of_mem a hb)) hrun

end SyncSwarm.Lib
