/-!
# Lists that hold each item once

A list serves as a set that remembers in which order its items came. `contains_insertAll` says which
items a set holds after insertions, up to the equality of its items.
-/

namespace Roster.OrderedSet

variable {α : Type} [BEq α]

/-- Appends an item that is not there yet. -/
def insert (xs : List α) (x : α) : List α :=
  if xs.contains x then xs else xs ++ [x]

/-- Appends, in order, the items that are not there yet. -/
def insertAll (xs ys : List α) : List α :=
  ys.foldl insert xs

/-- The items of one set that are not in another. -/
def difference (xs ys : List α) : List α :=
  xs.filter fun x => !ys.contains x

@[simp] theorem insertAll_nil (xs : List α) : insertAll xs [] = xs :=
  rfl

@[simp] theorem insertAll_cons (xs : List α) (y : α) (ys : List α) :
    insertAll xs (y :: ys) = insertAll (insert xs y) ys :=
  rfl

theorem insertAll_append (xs ys zs : List α) :
    insertAll xs (ys ++ zs) = insertAll (insertAll xs ys) zs :=
  List.foldl_append

theorem insertAll_ne_nil {xs ys : List α} :
    insertAll xs ys ≠ [] ↔ xs ≠ [] ∨ ys ≠ [] := by
  induction ys generalizing xs with
  | nil => simp
  | cons y ys ih =>
    rw [insertAll_cons, ih]
    have hinsert : insert xs y ≠ [] := by
      unfold insert
      split
      · next hmem =>
        rintro rfl
        cases hmem
      · simp
    exact ⟨fun _ => .inr (List.cons_ne_nil y ys), fun _ => .inl hinsert⟩

theorem contains_insert [EquivBEq α] (xs : List α) (x y : α) :
    (insert xs x).contains y = (xs.contains y || x == y) := by
  unfold insert
  split
  · next h =>
    by_cases hxy : (x == y) = true
    · have : xs.contains y = true := by
        obtain ⟨z, hz, hxz⟩ := List.contains_iff_exists_mem_beq.1 h
        exact List.contains_iff_exists_mem_beq.2 ⟨z, hz, BEq.trans (BEq.symm hxy) hxz⟩
      rw [this, Bool.true_or]
    · simp [hxy]
  · simp [List.contains_eq_any_beq, BEq.comm]

theorem contains_insertAll [EquivBEq α] (xs ys : List α) (z : α) :
    (insertAll xs ys).contains z = (xs.contains z || ys.contains z) := by
  induction ys generalizing xs with
  | nil => simp
  | cons y ys ih =>
    rw [insertAll_cons, ih, contains_insert, List.contains_cons, Bool.or_assoc, BEq.comm]

/-- Nothing but the given items gets into a set. -/
theorem mem_of_mem_insertAll {xs ys : List α} {z : α} (h : z ∈ insertAll xs ys) :
    z ∈ xs ∨ z ∈ ys := by
  induction ys generalizing xs with
  | nil => exact .inl h
  | cons y ys ih =>
    rw [insertAll_cons] at h
    rcases ih h with hz | hz
    · unfold insert at hz
      split at hz
      · exact .inl hz
      · rcases List.mem_append.1 hz with hz | hz
        · exact .inl hz
        · exact .inr (List.mem_singleton.1 hz ▸ List.mem_cons_self)
    · exact .inr (List.mem_cons_of_mem y hz)

theorem mem_of_mem_insertAll_nil {ys : List α} {z : α} (h : z ∈ insertAll [] ys) : z ∈ ys :=
  (mem_of_mem_insertAll h).resolve_left List.not_mem_nil

/-- Every given item gets into a set, or an equal one is there. -/
theorem exists_mem_insertAll [EquivBEq α] (xs : List α) {ys : List α} {y : α} (h : y ∈ ys) :
    ∃ z ∈ insertAll xs ys, (z == y) = true := by
  have hcontains : (insertAll xs ys).contains y = true := by
    rw [contains_insertAll, Bool.or_eq_true]
    exact .inr (List.contains_iff_exists_mem_beq.2 ⟨y, h, BEq.rfl⟩)
  obtain ⟨z, hz, heq⟩ := List.contains_iff_exists_mem_beq.1 hcontains
  exact ⟨z, hz, BEq.symm heq⟩

theorem mem_insertAll [LawfulBEq α] {xs ys : List α} {z : α} :
    z ∈ insertAll xs ys ↔ z ∈ xs ∨ z ∈ ys := by
  rw [← List.contains_iff_mem, contains_insertAll, Bool.or_eq_true, List.contains_iff_mem,
    List.contains_iff_mem]

theorem mem_difference {xs ys : List α} {z : α} :
    z ∈ difference xs ys ↔ z ∈ xs ∧ ∀ y ∈ ys, ¬ (z == y) = true := by
  rw [difference, List.mem_filter, Bool.not_eq_true', ← Bool.not_eq_true,
    List.contains_iff_exists_mem_beq]
  simp

/-- No two items of a set are equal. -/
theorem pairwise_insertAll [EquivBEq α] {xs : List α} (h : xs.Pairwise fun a b => (a == b) = false)
    (ys : List α) : (insertAll xs ys).Pairwise fun a b => (a == b) = false := by
  induction ys generalizing xs with
  | nil => exact h
  | cons y ys ih =>
    rw [insertAll_cons]
    refine ih ?_
    unfold insert
    split
    · exact h
    · next hnot =>
      refine List.pairwise_append.2 ⟨h, List.pairwise_singleton _ _, fun a ha b hb => ?_⟩
      rw [List.mem_singleton.1 hb]
      refine Bool.eq_false_iff.2 fun heq => hnot ?_
      exact List.contains_iff_exists_mem_beq.2 ⟨a, ha, BEq.symm heq⟩

end Roster.OrderedSet
