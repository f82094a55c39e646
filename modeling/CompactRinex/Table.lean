/-!
# Finite tables

A table gives a value to each of finitely many keys, as a list of pairs without a repeated key. The
view is `get?`: each operation is described by what it does to it (`get?_insert`, `get?_restrict`),
and `mem_entries_iff` says that the pairs are exactly what `get?` shows.

A program that keeps its tables hashed meets their pairs in an order of its own, which may be
another one each time. Such an order is a `Walk`.
-/

namespace CompactRinex

/-- A finite table from keys to values. -/
structure Table (κ α : Type) [DecidableEq κ] where
  /-- The pairs, in order of first insertion. -/
  entries : List (κ × α)
  /-- No key is repeated. -/
  nodup : (entries.map Prod.fst).Nodup
  deriving Repr

/-- A way through the pairs of a table: it meets each of them once, in any order. -/
structure Walk (β : Type) where
  /-- The pairs as they are met. -/
  visit : List β → List β
  /-- None is left out, and none is met twice. -/
  perm : ∀ pairs, (visit pairs).Perm pairs

/-- The pairs in the order of first insertion. -/
def Walk.inserted {β : Type} : Walk β := ⟨fun pairs => pairs, List.Perm.refl⟩

namespace Table

variable {κ α : Type} [DecidableEq κ]

/-- The table without a key. -/
def empty : Table κ α := ⟨[], List.nodup_nil⟩

instance : EmptyCollection (Table κ α) := ⟨empty⟩

instance : Inhabited (Table κ α) := ⟨empty⟩

/-- The value paired with `k`. -/
def find (k : κ) : List (κ × α) → Option α
  | [] => none
  | (k', a) :: rest => if k' = k then some a else find k rest

/-- The value of a key. -/
def get? (t : Table κ α) (k : κ) : Option α := find k t.entries

/-- The key has a value. -/
def contains (t : Table κ α) (k : κ) : Bool := (t.get? k).isSome

/-- No key has a value. -/
def isEmpty (t : Table κ α) : Bool := t.entries.isEmpty

/-- The pairs, as they are met on a walk. -/
def along (t : Table κ α) (walk : Walk (κ × α)) : List (κ × α) := walk.visit t.entries

/-- A walk meets the pairs of the table and no others. -/
theorem mem_along {t : Table κ α} {walk : Walk (κ × α)} {p : κ × α} :
    p ∈ t.along walk ↔ p ∈ t.entries :=
  (walk.perm t.entries).mem_iff

/-- A walk meets no key twice. -/
theorem nodup_along (t : Table κ α) (walk : Walk (κ × α)) :
    ((t.along walk).map Prod.fst).Nodup :=
  ((walk.perm t.entries).map Prod.fst).nodup_iff.2 t.nodup

/-- The values, in order of first insertion of their keys. -/
def values (t : Table κ α) : List α := t.entries.map Prod.snd

/-- Pairs with the value of `k` replaced, or added at the end. -/
def put (k : κ) (a : α) : List (κ × α) → List (κ × α)
  | [] => [(k, a)]
  | (k', b) :: rest => if k' = k then (k, a) :: rest else (k', b) :: put k a rest

/-- The keys are those of before, and the new one. -/
theorem fst_mem_put {k k' : κ} {a : α} {l : List (κ × α)} :
    k' ∈ (put k a l).map Prod.fst ↔ k' = k ∨ k' ∈ l.map Prod.fst := by
  induction l with
  | nil => simp [put]
  | cons p l ih =>
    obtain ⟨q, b⟩ := p
    by_cases h : q = k
    · subst h; simp [put]
    · simp only [put, h, if_false, List.map_cons, List.mem_cons, ih]
      constructor
      · rintro (h1 | h1 | h1) <;> simp [h1]
      · rintro (h1 | h1 | h1) <;> simp [h1]

/-- No key is repeated. -/
theorem nodup_put (k : κ) (a : α) {l : List (κ × α)} (h : (l.map Prod.fst).Nodup) :
    ((put k a l).map Prod.fst).Nodup := by
  induction l with
  | nil => simp [put]
  | cons p l ih =>
    obtain ⟨q, b⟩ := p
    simp only [List.map_cons, List.nodup_cons] at h
    by_cases hq : q = k
    · subst hq; simpa [put] using h
    · simp only [put, hq, if_false, List.map_cons, List.nodup_cons, fst_mem_put]
      exact ⟨fun hm => hm.elim False.elim h.1, ih h.2⟩

/-- The table in which `k` has the value `a`. -/
def insert (t : Table κ α) (k : κ) (a : α) : Table κ α := ⟨put k a t.entries, nodup_put k a t.nodup⟩

/-- The table of the keys for which `keep` holds. -/
def restrict (t : Table κ α) (keep : κ → Bool) : Table κ α where
  entries := t.entries.filter fun p => keep p.1
  nodup := (List.filter_sublist.map Prod.fst).nodup t.nodup

/-- The empty table has no value. -/
@[simp] theorem get?_empty (k : κ) : (∅ : Table κ α).get? k = none := rfl

/-- The new value is found at its key, and the others as before. -/
theorem find_put (k k' : κ) (a : α) (l : List (κ × α)) :
    find k' (put k a l) = if k' = k then some a else find k' l := by
  induction l with
  | nil =>
    simp only [put, find]
    by_cases h : k = k' <;> simp [h, eq_comm]
  | cons p l ih =>
    obtain ⟨q, b⟩ := p
    by_cases hq : q = k
    · -- The key that is stored is found in its place.
      subst hq
      simp only [put, if_true, find]
      by_cases h : q = k' <;> simp [h, Ne.symm]
    · simp only [put, hq, if_false, find, ih]
      by_cases h : q = k'
      · subst h; simp [hq]
      · simp [h]

/-- An insertion shows at its key and nowhere else. -/
theorem get?_insert (t : Table κ α) (k k' : κ) (a : α) :
    (t.insert k a).get? k' = if k' = k then some a else t.get? k' :=
  find_put k k' a t.entries

/-- A restriction hides the other keys. -/
theorem get?_restrict (t : Table κ α) (keep : κ → Bool) (k : κ) :
    (t.restrict keep).get? k = if keep k then t.get? k else none := by
  simp only [get?, restrict]
  induction t.entries with
  | nil => simp [find]
  | cons p l ih =>
    obtain ⟨q, b⟩ := p
    by_cases hq : q = k
    · subst hq
      by_cases hk : keep q
      · simp [hk, find]
      · simp only [List.filter_cons, hk, Bool.false_eq_true, if_false, ih]
    · by_cases hk : keep q <;> simp [hk, find, hq, ih]

/-- The pairs are what `get?` shows. -/
theorem mem_entries_iff (t : Table κ α) (k : κ) (a : α) :
    (k, a) ∈ t.entries ↔ t.get? k = some a := by
  obtain ⟨l, h⟩ := t
  simp only [get?]
  induction l with
  | nil => simp [find]
  | cons p l ih =>
    obtain ⟨q, b⟩ := p
    simp only [List.map_cons, List.nodup_cons] at h
    by_cases hq : q = k
    · subst hq
      simp only [List.mem_cons, Prod.mk.injEq, true_and, find, if_true]
      constructor
      · rintro (rfl | hm)
        · rfl
        · exact absurd (List.mem_map_of_mem hm) h.1
      · intro he
        exact Or.inl (Option.some.inj he).symm
    · simp only [List.mem_cons, Prod.mk.injEq, Ne.symm hq, false_and, false_or, find, hq, if_false]
      exact ih h.2

end Table

end CompactRinex
