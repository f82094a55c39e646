import CompactRinex.Proofs.Body.Invariant

/-!
# Sequences of operations

The tracks take in data lines, lose the satellites that are out of view, and start over.
`Tracking.performAll` runs a sequence of such operations and `Tracking.answers` collects what the
data lines of one satellite are answered with. A data line reads and writes the track of its own
satellite only, so `agree_performAll` leaves the lines of all others out, accepted or rejected, and
two lines of different satellites can be exchanged (`agree_of_filter_eq`,
`filter_concerns_exchange`).
-/

namespace CompactRinex

namespace Tracking

/-- What can be done to the tracks. -/
inductive Operation where
  /-- Takes in a data line. -/
  | decode (layout : Layout) (satellite : Satellite) (id line : Text)
  /-- Keeps the tracks of these satellites only. -/
  | retain (satellites : List Satellite)
  /-- Ends all histories. -/
  | reset
  deriving Repr

/-- The satellite of a data line. -/
def Operation.satellite? : Operation → Option Satellite
  | .decode _ satellite _ _ => some satellite
  | .retain _ | .reset => none

/-- The operation is a data line of the satellite, or it is about all satellites. -/
def Operation.concerns (s : Satellite) (operation : Operation) : Bool :=
  operation.satellite?.all fun satellite => satellite = s

variable {maxOrder : ℕ}

/-- The tracks after an operation, accepted or rejected. -/
def perform (t : Tracking maxOrder) : Operation → Tracking maxOrder
  | .decode layout satellite id line => (t.decode layout satellite id line).state
  | .retain satellites => t.retain satellites
  | .reset => ∅

/-- The tracks after a sequence of operations. -/
def performAll (t : Tracking maxOrder) (operations : List Operation) : Tracking maxOrder :=
  operations.foldl perform t

/-- The answer to an operation, if it is a data line of the satellite. -/
def answer? (s : Satellite) (t : Tracking maxOrder) : Operation → Option (Except Fault Text)
  | .decode layout satellite id line =>
    if satellite = s then some (t.decode layout satellite id line).result else none
  | .retain _ | .reset => none

/-- The answers to the data lines of the satellite, in order. -/
def answers (s : Satellite) (t : Tracking maxOrder) : List Operation → List (Except Fault Text)
  | [] => []
  | operation :: rest => (t.answer? s operation).toList ++ answers s (t.perform operation) rest

/-- Tracks that the operations lead to from none. -/
inductive Reachable : Tracking maxOrder → Prop
  | empty : Reachable ∅
  | perform {t : Tracking maxOrder} (h : Reachable t) (operation : Operation) :
      Reachable (t.perform operation)

/-- Operations lead from reachable tracks to reachable ones. -/
theorem Reachable.performAll {t : Tracking maxOrder} (h : t.Reachable)
    (operations : List Operation) : (t.performAll operations).Reachable := by
  induction operations generalizing t with
  | nil => exact h
  | cons operation rest ih => exact ih (h.perform operation)

/-! ## One satellite -/

section Agree

/-- The two have the same history of the satellite. -/
def Agree (s : Satellite) (t t' : Tracking maxOrder) : Prop := t.tracks.get? s = t'.tracks.get? s

variable {s : Satellite} {t t' t'' : Tracking maxOrder}

/-- Agreement goes on. -/
theorem Agree.trans (h : Agree s t t') (h' : Agree s t' t'') : Agree s t t'' := Eq.trans h h'

/-- Agreement goes both ways. -/
theorem Agree.symm (h : Agree s t t') : Agree s t' t := Eq.symm h

/-- Where tracks agree, both are there or neither is. -/
theorem Agree.contains_eq (h : Agree s t t') : t.contains s = t'.contains s := by
  unfold contains Table.contains
  rw [h]

/-- Where tracks agree, their values are the same. -/
theorem Agree.value?_eq (h : Agree s t t') (i : ℕ) : t.value? s i = t'.value? s i := by
  unfold value?
  rw [h]

/-- The answer to a data line, and the history after it, are read off the history before it. -/
theorem Agree.decode (h : Agree s t t') (layout : Layout) (id line : Text) :
    (t.decode layout s id line).result = (t'.decode layout s id line).result ∧
      Agree s (t.decode layout s id line).state (t'.decode layout s id line).state := by
  unfold Agree at h ⊢
  unfold Tracking.decode
  rw [h]
  split
  · exact ⟨rfl, h⟩
  · split
    · split
      · exact ⟨rfl, h⟩
      · exact ⟨rfl, by simp only [Table.get?_insert, if_true]⟩
    · exact ⟨rfl, h⟩

/-- A data line of another satellite does not touch the history, accepted or rejected. -/
theorem agree_decode_of_ne {satellite : Satellite} (hne : satellite ≠ s) (t : Tracking maxOrder)
    (layout : Layout) (id line : Text) : Agree s (t.decode layout satellite id line).state t := by
  unfold Agree
  rcases t.get?_decode layout satellite id line with hsame | ⟨columns, dataLine, hget⟩
  · rw [hsame]
  · rw [hget, if_neg hne.symm]

/-- Satellites that agree before an operation get the same answer and agree after it. -/
theorem Agree.perform (h : Agree s t t') (operation : Operation) :
    t.answer? s operation = t'.answer? s operation ∧
      Agree s (t.perform operation) (t'.perform operation) := by
  cases operation with
  | decode layout satellite id line =>
    by_cases hs : satellite = s
    · subst hs
      obtain ⟨hresult, hstate⟩ := h.decode layout id line
      exact ⟨by simp only [answer?, hresult], hstate⟩
    · -- A line of another satellite leaves this one alone on both sides.
      have hleft := agree_decode_of_ne hs t layout id line
      have hright := agree_decode_of_ne hs t' layout id line
      exact ⟨by simp only [answer?, hs, if_false], (hleft.trans h).trans hright.symm⟩
  | retain satellites =>
    refine ⟨rfl, ?_⟩
    unfold Agree at h ⊢
    simp only [Tracking.perform, retain, Table.get?_restrict, h]
  | reset => exact ⟨rfl, rfl⟩

/-- An operation that is not about the satellite has no answer and does not touch the history. -/
theorem perform_of_not_concerns {operation : Operation} (h : operation.concerns s = false)
    (t : Tracking maxOrder) : t.answer? s operation = none ∧ Agree s (t.perform operation) t := by
  cases operation with
  | decode layout satellite id line =>
    have hs : satellite ≠ s := by simpa [Operation.concerns, Operation.satellite?] using h
    exact ⟨by simp only [answer?, hs, if_false], agree_decode_of_ne hs t layout id line⟩
  | retain satellites => cases h
  | reset => cases h

/-! ## Sequences -/

/-- The operations that are not about the satellite can be left out. -/
theorem agree_performAll (h : Agree s t t') (operations : List Operation) :
    answers s t operations = answers s t' (operations.filter (Operation.concerns s)) ∧
      Agree s (t.performAll operations)
        (t'.performAll (operations.filter (Operation.concerns s))) := by
  induction operations generalizing t t' with
  | nil => exact ⟨rfl, h⟩
  | cons operation rest ih =>
    by_cases hconcerns : operation.concerns s
    · -- Both sides perform the operation.
      obtain ⟨hanswer, hafter⟩ := h.perform operation
      obtain ⟨hanswers, hend⟩ := ih hafter
      rw [List.filter_cons_of_pos hconcerns]
      exact ⟨by simp only [answers, hanswer, hanswers], hend⟩
    · -- Only the left side performs it, and stays in agreement.
      obtain ⟨hanswer, hkept⟩ := perform_of_not_concerns (Bool.eq_false_iff.2 hconcerns) t
      obtain ⟨hanswers, hend⟩ := ih (hkept.trans h)
      rw [List.filter_cons_of_neg hconcerns]
      exact ⟨by simp only [answers, hanswer, Option.toList_none, List.nil_append, hanswers], hend⟩

/-- Two sequences with the same operations about the satellite, in the same order, give it the same
answers and the same history. -/
theorem agree_of_filter_eq {operations operations' : List Operation}
    (h : operations.filter (Operation.concerns s) = operations'.filter (Operation.concerns s))
    (t : Tracking maxOrder) :
    answers s t operations = answers s t operations' ∧
      Agree s (t.performAll operations) (t.performAll operations') := by
  have hself : Agree s t t := rfl
  obtain ⟨hanswers, hend⟩ := agree_performAll hself operations
  obtain ⟨hanswers', hend'⟩ := agree_performAll hself operations'
  rw [h] at hanswers hend
  exact ⟨hanswers.trans hanswers'.symm, hend.trans hend'.symm⟩

end Agree

/-- Lines of two satellites next to each other do not both concern the same satellite. -/
theorem filter_concerns_exchange {one two : Operation} {s₁ s₂ : Satellite}
    (hone : one.satellite? = some s₁) (htwo : two.satellite? = some s₂) (hne : s₁ ≠ s₂)
    (s : Satellite) (earlier later : List Operation) :
    (earlier ++ one :: two :: later).filter (Operation.concerns s) =
      (earlier ++ two :: one :: later).filter (Operation.concerns s) := by
  simp only [List.filter_append, List.filter_cons, Operation.concerns, hone, htwo, Option.all_some,
    decide_eq_true_eq]
  -- At most one of the two operations is about this satellite.
  by_cases h₁ : s₁ = s
  · have h₂ : s₂ ≠ s := fun h => hne (h₁.trans h.symm)
    rw [if_neg h₂, if_neg h₂]
  · rw [if_neg h₁, if_neg h₁]

end Tracking

end CompactRinex
