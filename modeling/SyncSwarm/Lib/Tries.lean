import Mathlib.Data.List.Basic

/-! Computations that try things which may fail. An environment says of every try, in order, whether it succeeds; what
    was tried is recorded. -/

namespace SyncSwarm.Lib

variable {ε α β : Type}

structure Tried (ε α : Type) where
  value : α
  rest : Nat → Bool
  done : List ε

/-- A computation, given the answers to all the tries. It reads them in order, and leaves those
    that it has not read. --/
structure Tries (ε α : Type) where
  run : (Nat → Bool) → Tried ε α
  leaves : ∀ answers, ∃ read, ∀ n, (run answers).rest n = answers (read + n)

namespace Tries

instance : Monad (Tries ε) where
  pure a := ⟨fun answers => ⟨a, answers, []⟩, fun _ => ⟨0, fun n => by rw [Nat.zero_add]⟩⟩
  bind m f :=
    { run := fun answers =>
        let first := m.run answers
        let second := (f first.value).run first.rest
        ⟨second.value, second.rest, first.done ++ second.done⟩
      leaves := fun answers => by
        obtain ⟨read, hread⟩ := m.leaves answers
        obtain ⟨more, hmore⟩ := (f (m.run answers).value).leaves (m.run answers).rest
        exact ⟨read + more, fun n => by rw [hmore, hread, Nat.add_assoc]⟩ }

@[simp] theorem run_pure (a : α) (answers : Nat → Bool) : (pure a : Tries ε α).run answers = ⟨a, answers, []⟩ := rfl

theorem run_bind (m : Tries ε α) (f : α → Tries ε β) (answers : Nat → Bool) : (m >>= f).run answers =
    ⟨((f (m.run answers).value).run (m.run answers).rest).value,
      ((f (m.run answers).value).run (m.run answers).rest).rest,
      (m.run answers).done ++ ((f (m.run answers).value).run (m.run answers).rest).done⟩ := rfl

def attempt (event : Bool → ε) : Tries ε Bool :=
  ⟨fun answers => ⟨answers 0, fun n => answers (1 + n), [event (answers 0)]⟩, fun _ => ⟨1, fun _ => rfl⟩⟩

def ask : Tries ε Bool := ⟨fun answers => ⟨answers 0, fun n => answers (1 + n), []⟩, fun _ => ⟨1, fun _ => rfl⟩⟩

@[simp] theorem run_attempt (event : Bool → ε) (answers : Nat → Bool) :
    (attempt event).run answers = ⟨answers 0, fun n => answers (1 + n), [event (answers 0)]⟩ := rfl

@[simp] theorem run_ask (answers : Nat → Bool) :
    (ask : Tries ε Bool).run answers = ⟨answers 0, fun n => answers (1 + n), []⟩ := rfl

def or (m m' : Tries ε Bool) : Tries ε Bool := do
  if ← m then pure true else m'

def and (m m' : Tries ε Bool) : Tries ε Bool := do
  if ← m then m' else pure false

def each {ρ : Type} (f : α → Tries ε (Except ρ Unit)) : List α → Tries ε (Except ρ Unit)
  | [] => pure (.ok ())
  | a :: as => do
    match ← f a with
    | .error e => pure (.error e)
    | .ok () => each f as

def Ensures (A : Bool → Prop) (m : Tries ε α) (R : α → List ε → Prop) : Prop :=
  ∀ answers : Nat → Bool, (∀ n, A (answers n)) → R (m.run answers).value (m.run answers).done

namespace Ensures
variable {A : Bool → Prop} {m : Tries ε α} {f : α → Tries ε β} {R R' : α → List ε → Prop} {S : β → List ε → Prop}

theorem of_pure {a : α} (h : R a []) : Ensures A (pure a : Tries ε α) R := fun _ _ => h

theorem bind (hm : Ensures A m R) (hf : ∀ a done, R a done → Ensures A (f a) fun b more => S b (done ++ more)) :
    Ensures A (m >>= f) S := by
  intro answers ha
  refine hf _ _ (hm answers ha) _ fun n => ?_
  obtain ⟨read, hread⟩ := m.leaves answers
  rw [hread]
  exact ha (read + n)

theorem mono (hm : Ensures A m R) (h : ∀ a done, R a done → R' a done) :
    Ensures A m R' := fun answers ha => h _ _ (hm answers ha)

theorem of_attempt {event : Bool → ε} {R : Bool → List ε → Prop} (h : ∀ ok, A ok → R ok [event ok]) :
    Ensures A (attempt event) R := fun _ ha => h _ (ha 0)

theorem of_ask {R : Bool → List ε → Prop} (h : ∀ ok, A ok → R ok []) :
    Ensures A (ask : Tries ε Bool) R := fun _ ha => h _ (ha 0)

end Ensures

abbrev Only (P : ε → Prop) (m : Tries ε α) : Prop := Ensures (fun _ => True) m fun _ done => ∀ e ∈ done, P e

namespace Only
variable {P : ε → Prop} {m : Tries ε α} {f : α → Tries ε β}

theorem of_pure {a : α} : Only P (pure a : Tries ε α) := Ensures.of_pure nofun

theorem bind (hm : Only P m) (hf : ∀ a, Only P (f a)) : Only P (m >>= f) :=
  Ensures.bind hm fun a _ hdone => (hf a).mono fun _ _ hmore e he =>
    (List.mem_append.mp he).elim (hdone e) (hmore e)

theorem of_attempt {event : Bool → ε} (h : ∀ ok, P (event ok)) : Only P (attempt event) :=
  Ensures.of_attempt fun ok _ e he => by
    obtain rfl := List.mem_singleton.mp he
    exact h ok

theorem of_ask : Only P (ask : Tries ε Bool) := Ensures.of_ask nofun

theorem of_or {m m' : Tries ε Bool} (hm : Only P m) (hm' : Only P m') : Only P (m.or m') := by
  refine bind hm fun ok => ?_
  split
  · exact of_pure
  · exact hm'

theorem of_and {m m' : Tries ε Bool} (hm : Only P m) (hm' : Only P m') : Only P (m.and m') := by
  refine bind hm fun ok => ?_
  split
  · exact hm'
  · exact of_pure

theorem of_each {ρ : Type} {f : α → Tries ε (Except ρ Unit)} {as : List α} (h : ∀ a ∈ as, Only P (f a)) :
    Only P (each f as) := by
  induction as with
  | nil => exact of_pure
  | cons a as ih =>
    refine bind (h a List.mem_cons_self) fun x => ?_
    cases x with
    | error e => exact of_pure
    | ok x => exact ih fun b hb => h b (List.mem_cons_of_mem a hb)

end Only
end Tries
end SyncSwarm.Lib
