import CompactRinex.Fault
import CompactRinex.Outcome
import Mathlib.Data.List.Basic

/-!
# Programs that store

An operation of the library answers with the state after it, and can leave the state alone when it
fails because it has both. A program that changes a state in place cannot: what it has stored when
it fails stays stored (`InPlace.outcome`). It leaves the state alone only if it fails before its
first store (`InPlace.Careful`), and this follows from its parts: what is done first only reads, or
what is done after the first store cannot fail.

`Atomic` says what that comes to for a program that follows an operation. A refused input is as good
as not given, and so are all refused inputs of a sequence together (`Atomic.of_careful`).
-/

namespace CompactRinex

/-- A program that changes a state store by store. -/
abbrev InPlace (σ α : Type) := EStateM Fault σ α

namespace InPlace

variable {σ τ α β : Type}

/-- What a program leaves in the state, and what it answers. -/
def outcome (x : InPlace σ α) (s : σ) : Outcome σ Fault α :=
  match x s with
  | .ok a s' => .ok s' a
  | .error e s' => .fail s' e

/-- A program on a part of the state. Its stores stay in the whole, also when it fails. -/
def within (part : σ → τ) (put : σ → τ → σ) (x : InPlace τ α) : InPlace σ α := fun s =>
  match x (part s) with
  | .ok a t => .ok a (put s t)
  | .error e t => .error e (put s t)

/-- A program goes on with the state that the one before it has left, or ends with its fault. -/
theorem outcome_bind (x : InPlace σ α) (f : α → InPlace σ β) (s : σ) :
    outcome (x >>= f) s =
      match (outcome x s).result with
      | .ok a => outcome (f a) (outcome x s).state
      | .error e => .fail (outcome x s).state e := by
  show outcome (EStateM.bind x f) s = _
  unfold outcome EStateM.bind
  cases x s <;> rfl

/-- A program goes on with the state that it has looked at. -/
theorem outcome_get_bind (f : σ → InPlace σ α) (s : σ) :
    outcome (get >>= f) s = outcome (f s) s := rfl

/-- A program goes on with a result, or ends with the error. -/
theorem outcome_ofExcept_bind (next : Except Fault α) (f : α → InPlace σ β) (s : σ) :
    outcome (MonadExcept.ofExcept next >>= f) s =
      match next with
      | .ok a => outcome (f a) s
      | .error e => .fail s e := by
  cases next <;> rfl

/-- The answer is changed, and nothing else. -/
theorem outcome_map (f : α → β) (x : InPlace σ α) (s : σ) :
    outcome (f <$> x) s = ⟨(outcome x s).state, (outcome x s).result.map f⟩ := by
  show outcome (EStateM.map f x) s = _
  unfold outcome EStateM.map
  cases x s <;> rfl

/-- A program on a part of the state. -/
theorem outcome_within (part : σ → τ) (put : σ → τ → σ) (x : InPlace τ α) (s : σ) :
    outcome (within part put x) s = (outcome x (part s)).lift (put s) := by
  unfold outcome within
  cases x (part s) <;> rfl

/-- Nothing is stored. -/
def Reads (x : InPlace σ α) : Prop := ∀ s, (outcome x s).state = s

/-- There is no failure. -/
def Succeeds (x : InPlace σ α) : Prop := ∀ s, ∃ a, (outcome x s).result = .ok a

/-- Nothing has been stored when there is a failure. -/
def Careful (x : InPlace σ α) : Prop :=
  ∀ s e, (outcome x s).result = .error e → (outcome x s).state = s

/-- A program that stores nothing is careful. -/
theorem Reads.careful {x : InPlace σ α} (h : Reads x) : Careful x := fun s _ _ => h s

/-- So is one that does not fail. -/
theorem Succeeds.careful {x : InPlace σ α} (h : Succeeds x) : Careful x := by
  intro s e he
  obtain ⟨a, ha⟩ := h s
  rw [ha] at he
  cases he

/-- An answer stores nothing. -/
theorem reads_pure (a : α) : Reads (pure a : InPlace σ α) := fun _ => rfl

/-- Nor does a fault. -/
theorem reads_throw (e : Fault) : Reads (throw e : InPlace σ α) := fun _ => rfl

/-- Nor does a look at the state. -/
theorem reads_get : Reads (get : InPlace σ σ) := fun _ => rfl

/-- Nor does a result of a computation. -/
theorem reads_ofExcept (next : Except Fault α) :
    Reads (MonadExcept.ofExcept next : InPlace σ α) := by
  cases next with
  | error e => exact reads_throw e
  | ok a => exact reads_pure a

/-- An answer does not fail. -/
theorem succeeds_pure (a : α) : Succeeds (pure a : InPlace σ α) := fun _ => ⟨a, rfl⟩

/-- Nor does a look at the state. -/
theorem succeeds_get : Succeeds (get : InPlace σ σ) := fun s => ⟨s, rfl⟩

/-- Nor does a store. -/
theorem succeeds_set (s : σ) : Succeeds (set s : InPlace σ PUnit) := fun _ => ⟨⟨⟩, rfl⟩

/-- Nor does a change of the state. -/
theorem succeeds_modify (f : σ → σ) : Succeeds (modify f : InPlace σ PUnit) := fun _ => ⟨⟨⟩, rfl⟩

/-- Nor does a program that goes on without failing. -/
theorem Succeeds.bind {x : InPlace σ α} {f : α → InPlace σ β} (hx : Succeeds x)
    (hf : ∀ a, Succeeds (f a)) : Succeeds (x >>= f) := by
  intro s
  obtain ⟨a, ha⟩ := hx s
  rw [outcome_bind, ha]
  exact hf a (outcome x s).state

/-- What is done after a look at the state may fail or store. -/
theorem Careful.bind_of_reads {x : InPlace σ α} {f : α → InPlace σ β} (hx : Reads x)
    (hf : ∀ a, Careful (f a)) : Careful (x >>= f) := by
  intro s e he
  rw [outcome_bind] at he ⊢
  rw [hx s] at he ⊢
  cases hresult : (outcome x s).result with
  | error e' => rfl
  | ok a =>
    rw [hresult] at he
    exact hf a s e he

/-- What is done after the first store has to succeed. -/
theorem Careful.bind_of_succeeds {x : InPlace σ α} {f : α → InPlace σ β} (hx : Careful x)
    (hf : ∀ a, Succeeds (f a)) : Careful (x >>= f) := by
  intro s e he
  rw [outcome_bind] at he ⊢
  cases hresult : (outcome x s).result with
  | error e' => exact hx s e' hresult
  | ok a =>
    rw [hresult] at he
    -- What follows does not fail, so the failure is that of the first program.
    obtain ⟨b, hb⟩ := hf a (outcome x s).state
    rw [hb] at he
    cases he

/-- The answer does not matter. -/
theorem Careful.map {x : InPlace σ α} (hx : Careful x) (f : α → β) : Careful (f <$> x) := by
  intro s e he
  rw [outcome_map] at he ⊢
  refine hx s e ?_
  cases hresult : (outcome x s).result with
  | error e' =>
    rw [hresult] at he
    cases he
    rfl
  | ok a =>
    rw [hresult] at he
    cases he

/-- A part that is as it was leaves the whole as it was. -/
theorem Careful.within {part : σ → τ} {put : σ → τ → σ} (hput : ∀ s, put s (part s) = s)
    {x : InPlace τ α} (hx : Careful x) : Careful (within part put x) := by
  intro s e he
  rw [outcome_within] at he ⊢
  show put s (outcome x (part s)).state = s
  rw [hx (part s) e he, hput]

end InPlace

/-! ## Sequences of inputs -/

namespace Outcome

variable {σ ρ ι α : Type} (step : σ → ι → Outcome σ Fault α)

/-- The state after some inputs, accepted or refused. -/
def after (s : σ) (inputs : List ι) : σ := inputs.foldl (fun s i => (step s i).state) s

/-- The inputs, each with its answer. -/
def trace (s : σ) : List ι → List (ι × Except Fault α)
  | [] => []
  | i :: inputs => (i, (step s i).result) :: trace (step s i).state inputs

/-- There is an answer to each input. -/
@[simp] theorem length_trace (s : σ) (inputs : List ι) :
    (trace step s inputs).length = inputs.length := by
  induction inputs generalizing s with
  | nil => rfl
  | cons i inputs ih => rw [trace, List.length_cons, ih, List.length_cons]

/-- The later inputs start from the state that the first ones have left. -/
theorem after_append (s : σ) (inputs later : List ι) :
    after step s (inputs ++ later) = after step (after step s inputs) later :=
  List.foldl_append

/-- So do their answers. -/
theorem trace_append (s : σ) (inputs later : List ι) :
    trace step s (inputs ++ later) =
      trace step s inputs ++ trace step (after step s inputs) later := by
  induction inputs generalizing s with
  | nil => rfl
  | cons i inputs ih =>
    rw [List.cons_append, trace, ih, trace, List.cons_append]
    rfl

/-- An input for which `covers` holds has been refused. -/
def isRefused (covers : ι → Bool) : ι × Except Fault α → Bool
  | (i, .error _) => covers i
  | (_, .ok _) => false

/-- The inputs that are not refused. -/
def kept (covers : ι → Bool) (s : σ) (inputs : List ι) : List (ι × Except Fault α) :=
  (trace step s inputs).filter fun p => !isRefused covers p

variable {step}

/-- An input that leaves everything as it was is not there for later ones. -/
theorem forgotten_of_state_eq {s : σ} {before : List ι} {i : ι}
    (h : (step (after step s before) i).state = after step s before) (later : List ι) :
    (trace step s (before ++ i :: later)).eraseIdx before.length =
        trace step s (before ++ later) ∧
      after step s (before ++ i :: later) = after step s (before ++ later) := by
  constructor
  · -- The answers before the input are the same, and those after it come from the same state.
    rw [trace_append, trace_append, trace, h,
      List.eraseIdx_append_of_length_le (Nat.le_of_eq (length_trace step s before)), length_trace,
      Nat.sub_self]
    rfl
  · rw [after_append, after_append]
    show after step (step (after step s before) i).state later = _
    rw [h]

/-- The induction is on the inputs: one that is refused leaves the state from which the others are
taken in. -/
theorem kept_only_of_unchanged {covers : ι → Bool}
    (h : ∀ s i e, covers i = true → (step s i).result = .error e → (step s i).state = s) (s : σ)
    (inputs : List ι) :
    trace step s ((kept step covers s inputs).map Prod.fst) = kept step covers s inputs ∧
      after step s ((kept step covers s inputs).map Prod.fst) = after step s inputs := by
  induction inputs generalizing s with
  | nil => exact ⟨rfl, rfl⟩
  | cons i inputs ih =>
    have hafter : after step s (i :: inputs) = after step (step s i).state inputs := rfl
    cases hrefused : isRefused covers (i, (step s i).result) with
    | true =>
      -- A refused input has left no trace in the state.
      have hstate : (step s i).state = s := by
        cases hresult : (step s i).result with
        | error e =>
          rw [hresult] at hrefused
          exact h s i e hrefused hresult
        | ok a =>
          rw [hresult] at hrefused
          cases hrefused
      have hkept : kept step covers s (i :: inputs) = kept step covers s inputs := by
        rw [kept, trace, List.filter_cons_of_neg (by simp [hrefused]), hstate, ← kept]
      rw [hkept, hafter, hstate]
      exact ih s
    | false =>
      obtain ⟨htrace, hend⟩ := ih (step s i).state
      have hkept : kept step covers s (i :: inputs) =
          (i, (step s i).result) :: kept step covers (step s i).state inputs := by
        rw [kept, trace, List.filter_cons_of_pos (by simp [hrefused]), ← kept]
      rw [hkept, List.map_cons, trace, htrace, hafter]
      exact ⟨rfl, hend⟩

end Outcome

/-! ## Atomic operations -/

open Outcome (after trace kept)

variable {σ ρ ι α : Type} {step : σ → ι → Outcome σ Fault α}

/-- The operation `step` can be carried out in place by `program`, on a state that is stored as
`store` says, and no input for which `covers` holds leaves a trace when it is refused. -/
structure Atomic (step : σ → ι → Outcome σ Fault α) (store : σ → ρ)
    (program : ι → InPlace ρ α) (covers : ι → Bool) : Prop where
  /-- In place an input does what the operation says, and fails as it does. -/
  follows : ∀ s i, InPlace.outcome (program i) (store s) = (step s i).lift store
  /-- Nothing has been stored when an input is refused, whatever the state is. -/
  careful : ∀ i, covers i = true → InPlace.Careful (program i)
  /-- A refused input leaves everything as it was. -/
  unchanged : ∀ s i e, covers i = true → (step s i).result = .error e → (step s i).state = s
  /-- Everything after a refused input is as if it had not been given. -/
  forgotten : ∀ s before i later e, covers i = true →
    (step (after step s before) i).result = .error e →
      (trace step s (before ++ i :: later)).eraseIdx before.length =
          trace step s (before ++ later) ∧
        after step s (before ++ i :: later) = after step s (before ++ later)
  /-- So it is with all refused inputs of a sequence together. -/
  kept_only : ∀ s inputs,
    trace step s ((kept step covers s inputs).map Prod.fst) = kept step covers s inputs ∧
      after step s ((kept step covers s inputs).map Prod.fst) = after step s inputs

/-- It is enough that the program fails before its first store, and that the state can be read off
what is stored. -/
theorem Atomic.of_careful {store : σ → ρ} (hstore : Function.Injective store)
    {program : ι → InPlace ρ α} {covers : ι → Bool}
    (hfollows : ∀ s i, InPlace.outcome (program i) (store s) = (step s i).lift store)
    (hcareful : ∀ i, covers i = true → InPlace.Careful (program i)) :
    Atomic step store program covers := by
  have hunchanged : ∀ s i e, covers i = true → (step s i).result = .error e →
      (step s i).state = s := by
    intro s i e hi he
    -- The program and the operation fail together, and leave the same fields.
    have hstate := hcareful i hi (store s) e
    rw [hfollows] at hstate
    exact hstore (hstate he)
  exact ⟨hfollows, hcareful, hunchanged,
    fun s before i later e hi he => Outcome.forgotten_of_state_eq (hunchanged _ i e hi he) later,
    Outcome.kept_only_of_unchanged hunchanged⟩

end CompactRinex
