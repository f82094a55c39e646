/-!
# Outcomes

An operation that may fail and still leave a mark answers with both: the state after it, and its
result or the error it reports.
-/

namespace CompactRinex

/-- The state an operation leaves, and what it answers. -/
structure Outcome (σ : Type) (ε : Type) (α : Type) where
  /-- The state after the operation, also after an error. -/
  state : σ
  /-- The answer, or the error that is reported. -/
  result : Except ε α
  deriving Repr

namespace Outcome

/-- The operation succeeded. -/
def ok {σ ε α : Type} (state : σ) (answer : α) : Outcome σ ε α := ⟨state, .ok answer⟩

/-- The operation reports an error. -/
def fail {σ ε α : Type} (state : σ) (error : ε) : Outcome σ ε α := ⟨state, .error error⟩

/-- An operation that changes the state only when it succeeds: `next` gives the new state and the
answer. -/
def commit {σ ε α : Type} (state : σ) (next : Except ε (σ × α)) : Outcome σ ε α :=
  match next with
  | .ok (state', answer) => ok state' answer
  | .error e => fail state e

/-- The same outcome, of a larger state. -/
def lift {σ τ ε α : Type} (f : σ → τ) (o : Outcome σ ε α) : Outcome τ ε α := ⟨f o.state, o.result⟩

/-- A committed operation leaves the state alone when it fails. -/
theorem state_commit_of_error {σ ε α : Type} {state : σ} {next : Except ε (σ × α)} {e : ε}
    (h : (commit state next).result = .error e) : (commit state next).state = state := by
  cases next with
  | ok p => cases h
  | error e' => rfl

end Outcome

end CompactRinex
