import Mathlib.Data.List.DropRight
import Roster.Membership.Diff

/-!
# Diffs that keep their views

A diff that is asked again and again can keep an index of each of its collections and compute a view
only once: `LazyDiff` keeps the effective additions and removals from the first question until the
next change. It tells what the plain diff of the same items tells (`Sound`), for every change puts an
index in step with its items and drops the views. This is so after any changes and questions
(`sound_after`).
-/

namespace Roster

namespace OrderedSet

variable {α : Type} [BEq α]

/-- Insertions append the first occurrence of each item that is not there yet. -/
theorem insertAll_eq_append (xs ys : List α) :
    insertAll xs ys = xs ++ (ys.filter fun y => !xs.contains y).eraseDups := by
  induction ys generalizing xs with
  | nil => simp
  | cons y ys ih =>
    rw [insertAll_cons, ih]
    by_cases hy : xs.contains y = true
    · rw [insert, if_pos hy, List.filter_cons_of_neg (by simp only [hy]; decide)]
    · have hlater : (ys.filter fun z => !(xs ++ [y]).contains z) =
          (ys.filter fun z => !xs.contains z).filter fun z => !(z == y) := by
        rw [List.filter_filter]
        refine List.filter_congr fun z _ => ?_
        simp [List.contains_eq_any_beq, Bool.and_comm]
      rw [insert, if_neg hy, List.filter_cons_of_pos (by simpa using hy), List.eraseDups_cons, hlater,
        List.append_assoc, List.singleton_append]

/-- A set holds the first occurrence of each item that was inserted. -/
theorem insertAll_nil_eq (xs : List α) : insertAll [] xs = xs.eraseDups := by
  simpa using insertAll_eq_append [] xs

theorem contains_eraseDups [EquivBEq α] (xs : List α) (x : α) : xs.eraseDups.contains x = xs.contains x := by
  rw [← insertAll_nil_eq, contains_insertAll, List.contains_nil, Bool.false_or]

theorem contains_difference [EquivBEq α] (xs ys : List α) (x : α) :
    (difference xs ys).contains x = (xs.contains x && !ys.contains x) := by
  have hsame {z : α} (hz : (x == z) = true) : ys.contains z = ys.contains x := by
    rw [Bool.eq_iff_iff, List.contains_iff_exists_mem_beq, List.contains_iff_exists_mem_beq]
    exact exists_congr fun y => and_congr_right fun _ =>
      ⟨fun h => BEq.trans hz h, fun h => BEq.trans (BEq.symm hz) h⟩
  rw [Bool.eq_iff_iff, Bool.and_eq_true, List.contains_iff_exists_mem_beq,
    List.contains_iff_exists_mem_beq]
  constructor
  · rintro ⟨z, hz, hxz⟩
    rw [difference, List.mem_filter] at hz
    exact ⟨⟨z, hz.1, hxz⟩, hsame hxz ▸ hz.2⟩
  · rintro ⟨⟨z, hz, hxz⟩, hnot⟩
    exact ⟨z, List.mem_filter.2 ⟨hz, (hsame hxz).symm ▸ hnot⟩, hxz⟩

end OrderedSet

/-! ## Sets with an index -/

/-- Items in order of arrival, with an index by which they are found. -/
structure IndexedSet (α : Type) [BEq α] [Hashable α] where
  items : List α := []
  index : Std.HashSet α := {}

namespace IndexedSet

variable {α : Type} [BEq α] [Hashable α]

/-- Appends an item that the index does not know yet. -/
def insert (s : IndexedSet α) (x : α) : IndexedSet α :=
  let (known, index) := s.index.containsThenInsert x
  ⟨if known then s.items else s.items ++ [x], index⟩

/-- Appends, in order, the items that the index does not know yet. -/
def insertAll (s : IndexedSet α) (xs : List α) : IndexedSet α :=
  xs.foldl insert s

/-- The items that the index of another set does not know. -/
def difference (s t : IndexedSet α) : List α :=
  s.items.filter fun x => !t.index.contains x

/-- The index knows the items and nothing else. -/
def InStep (s : IndexedSet α) : Prop :=
  ∀ x, s.index.contains x = s.items.contains x

variable {s t : IndexedSet α}

theorem inStep_empty : ({} : IndexedSet α).InStep := by
  intro x
  simp

theorem InStep.difference_eq (h : t.InStep) (s : IndexedSet α) :
    s.difference t = OrderedSet.difference s.items t.items :=
  List.filter_congr fun x _ => by rw [h x]

theorem InStep.items_insert (h : s.InStep) (x : α) :
    (s.insert x).items = OrderedSet.insert s.items x := by
  simp only [insert, Std.HashSet.containsThenInsert_fst, h x]
  rfl

variable [EquivBEq α] [LawfulHashable α]

theorem InStep.insert (h : s.InStep) (x : α) : (s.insert x).InStep := by
  intro y
  rw [h.items_insert, OrderedSet.contains_insert, ← h y, Bool.or_comm]
  simp only [IndexedSet.insert, Std.HashSet.containsThenInsert_snd, Std.HashSet.contains_insert]

theorem InStep.insertAll (h : s.InStep) (xs : List α) :
    (s.insertAll xs).InStep ∧ (s.insertAll xs).items = OrderedSet.insertAll s.items xs := by
  induction xs generalizing s with
  | nil => exact ⟨h, rfl⟩
  | cons x xs ih =>
    obtain ⟨hstep, hitems⟩ := ih (h.insert x)
    exact ⟨hstep, hitems.trans (by rw [h.items_insert, OrderedSet.insertAll_cons])⟩

end IndexedSet

/-! ## Diffs with views -/

/-- Items to add and items to remove, with the effective views as far as they are known. -/
structure LazyDiff (α : Type) [BEq α] [Hashable α] where
  added : IndexedSet α := {}
  removed : IndexedSet α := {}
  addedView : Option (List α) := none
  removedView : Option (List α) := none

namespace LazyDiff

variable {α : Type} [BEq α] [Hashable α]

/-- Drops the views. -/
def invalidate (diff : LazyDiff α) : LazyDiff α :=
  { diff with addedView := none, removedView := none }

/-- Asks for an item. -/
def add (diff : LazyDiff α) (x : α) : LazyDiff α :=
  invalidate { diff with added := diff.added.insert x }

/-- Asks for the end of an item. -/
def remove (diff : LazyDiff α) (x : α) : LazyDiff α :=
  invalidate { diff with removed := diff.removed.insert x }

/-- Asks for some items. -/
def addAll (diff : LazyDiff α) (xs : List α) : LazyDiff α :=
  invalidate { diff with added := diff.added.insertAll xs }

/-- Asks for the end of some items. -/
def removeAll (diff : LazyDiff α) (xs : List α) : LazyDiff α :=
  invalidate { diff with removed := diff.removed.insertAll xs }

/-- Forgets the items to add. -/
def clearAdded (diff : LazyDiff α) : LazyDiff α :=
  invalidate { diff with added := {} }

/-- The diff that leads from the current items to the desired ones. -/
def between (current desired : List α) : LazyDiff α :=
  (({} : LazyDiff α).removeAll current).addAll desired

/-- The items to add that are not also to be removed; they are kept for the next question. -/
def effectiveAdded (diff : LazyDiff α) : List α × LazyDiff α :=
  match diff.addedView with
  | some view => (view, diff)
  | none =>
    let view := diff.added.difference diff.removed
    (view, { diff with addedView := some view })

/-- The items to remove that are not also to be added; they are kept for the next question. -/
def effectiveRemoved (diff : LazyDiff α) : List α × LazyDiff α :=
  match diff.removedView with
  | some view => (view, diff)
  | none =>
    let view := diff.removed.difference diff.added
    (view, { diff with removedView := some view })

/-- Whether the diff changes nothing; the removals are looked at only if there are no additions. -/
def isEmpty (diff : LazyDiff α) : Bool × LazyDiff α :=
  let (added, diff) := diff.effectiveAdded
  if added.isEmpty then
    let (removed, diff) := diff.effectiveRemoved
    (removed.isEmpty, diff)
  else (false, diff)

/-- The effective removals and additions of a diff that is not used any more. -/
def intoEffective (diff : LazyDiff α) : List α × List α :=
  (diff.removed.difference diff.added, diff.added.difference diff.removed)

/-- A set after removals and then additions. -/
def applied (base : Std.HashSet α) (removed added : List α) : Std.HashSet α :=
  added.foldl (·.insert ·) (removed.foldl (·.erase ·) base)

/-- A set after the effective removals and then the effective additions. -/
def applyTo (diff : LazyDiff α) (base : Std.HashSet α) : Std.HashSet α × LazyDiff α :=
  let (removed, diff) := diff.effectiveRemoved
  let (added, diff) := diff.effectiveAdded
  (applied base removed added, diff)

/-- The diff without indexes and views. -/
def plain (diff : LazyDiff α) : Diff α :=
  ⟨diff.added.items, diff.removed.items⟩

/-! ## Views that are right -/

/-- The indexes are in step, and the views that are kept are those of the plain diff. -/
structure Sound (diff : LazyDiff α) : Prop where
  added : diff.added.InStep
  removed : diff.removed.InStep
  addedView (view : List α) : diff.addedView = some view → view = diff.plain.effectiveAdded
  removedView (view : List α) : diff.removedView = some view → view = diff.plain.effectiveRemoved

/-- An answer has a value, and the diff that is left is sound and has the same items. -/
structure Answers {β : Type} (diff : LazyDiff α) (answer : β × LazyDiff α) (value : β) : Prop where
  value_eq : answer.1 = value
  sound : answer.2.Sound
  plain_eq : answer.2.plain = diff.plain

variable {diff : LazyDiff α}

theorem sound_empty : ({} : LazyDiff α).Sound :=
  ⟨IndexedSet.inStep_empty, IndexedSet.inStep_empty, nofun, nofun⟩

/-- A diff without views is sound if its indexes are in step. -/
theorem sound_invalidate (hadded : diff.added.InStep) (hremoved : diff.removed.InStep) :
    diff.invalidate.Sound :=
  ⟨hadded, hremoved, nofun, nofun⟩

theorem Sound.effectiveAdded (h : diff.Sound) :
    Answers diff diff.effectiveAdded diff.plain.effectiveAdded := by
  unfold LazyDiff.effectiveAdded
  split
  · next view hview => exact ⟨h.addedView view hview, h, rfl⟩
  · have hview : diff.added.difference diff.removed = diff.plain.effectiveAdded :=
      h.removed.difference_eq diff.added
    exact ⟨hview, ⟨h.added, h.removed, fun view hsome => (Option.some.inj hsome) ▸ hview,
      h.removedView⟩, rfl⟩

theorem Sound.effectiveRemoved (h : diff.Sound) :
    Answers diff diff.effectiveRemoved diff.plain.effectiveRemoved := by
  unfold LazyDiff.effectiveRemoved
  split
  · next view hview => exact ⟨h.removedView view hview, h, rfl⟩
  · have hview : diff.removed.difference diff.added = diff.plain.effectiveRemoved :=
      h.added.difference_eq diff.removed
    exact ⟨hview, ⟨h.added, h.removed, h.addedView,
      fun view hsome => (Option.some.inj hsome) ▸ hview⟩, rfl⟩

theorem Sound.isEmpty (h : diff.Sound) : Answers diff diff.isEmpty diff.plain.isEmpty := by
  obtain ⟨hadded, hsound, hplain⟩ := h.effectiveAdded
  obtain ⟨hremoved, hsound', hplain'⟩ := hsound.effectiveRemoved
  rw [hplain] at hremoved hplain'
  unfold LazyDiff.isEmpty
  dsimp only
  rw [hadded, Diff.isEmpty]
  split
  · next hnone => exact ⟨by rw [hremoved, hnone, Bool.true_and], hsound', hplain'⟩
  · next hsome => exact ⟨by rw [Bool.eq_false_iff.2 hsome, Bool.false_and], hsound, hplain⟩

theorem Sound.intoEffective (h : diff.Sound) :
    diff.intoEffective = (diff.plain.effectiveRemoved, diff.plain.effectiveAdded) :=
  Prod.ext (h.added.difference_eq diff.removed) (h.removed.difference_eq diff.added)

theorem Sound.applyTo (h : diff.Sound) (base : Std.HashSet α) :
    Answers diff (diff.applyTo base)
      (applied base diff.plain.effectiveRemoved diff.plain.effectiveAdded) := by
  obtain ⟨hremoved, hsound, hplain⟩ := h.effectiveRemoved
  obtain ⟨hadded, hsound', hplain'⟩ := hsound.effectiveAdded
  rw [hplain] at hadded hplain'
  exact ⟨by unfold LazyDiff.applyTo; dsimp only; rw [hremoved, hadded], hsound', hplain'⟩

/-! ## Steps -/

/-- What happens to a diff: a change, or a question, which may leave a view behind. -/
inductive Step (α : Type) [BEq α] [Hashable α] where
  | add (x : α)
  | remove (x : α)
  | addAll (xs : List α)
  | removeAll (xs : List α)
  | clearAdded
  | askAdded
  | askRemoved
  | askEmpty
  | askApplied (base : Std.HashSet α)

/-- The diff after a step. -/
def take (diff : LazyDiff α) : Step α → LazyDiff α
  | .add x => diff.add x
  | .remove x => diff.remove x
  | .addAll xs => diff.addAll xs
  | .removeAll xs => diff.removeAll xs
  | .clearAdded => diff.clearAdded
  | .askAdded => diff.effectiveAdded.2
  | .askRemoved => diff.effectiveRemoved.2
  | .askEmpty => diff.isEmpty.2
  | .askApplied base => (diff.applyTo base).2

/-- The new diff after some steps. -/
def after (history : List (Step α)) : LazyDiff α :=
  history.foldl take {}

end LazyDiff

namespace Diff

open LazyDiff (Step)

variable {α : Type} [BEq α] [Hashable α]

/-- The plain diff after a step; questions leave it as it is. -/
def take (diff : Diff α) : Step α → Diff α
  | .add x => diff.add x
  | .remove x => diff.remove x
  | .addAll xs => diff.addAll xs
  | .removeAll xs => diff.removeAll xs
  | .clearAdded => diff.clearAdded
  | _ => diff

/-- The new plain diff after some steps. -/
def after (history : List (Step α)) : Diff α :=
  history.foldl take {}

end Diff

namespace LazyDiff

variable {α : Type} [BEq α] [Hashable α] [EquivBEq α] [LawfulHashable α] {diff : LazyDiff α}

/-- **Every step keeps the diff sound**, and does to its items what it does to those of the plain
diff. -/
theorem Sound.take (h : diff.Sound) (step : Step α) :
    (diff.take step).Sound ∧ (diff.take step).plain = diff.plain.take step := by
  have hadded := h.added
  have hremoved := h.removed
  cases step with
  | add x =>
    refine ⟨sound_invalidate (hadded.insert x) hremoved, ?_⟩
    exact congrArg (Diff.mk · _) (hadded.items_insert x)
  | remove x =>
    refine ⟨sound_invalidate hadded (hremoved.insert x), ?_⟩
    exact congrArg (Diff.mk _) (hremoved.items_insert x)
  | addAll xs =>
    obtain ⟨hstep, hitems⟩ := hadded.insertAll xs
    exact ⟨sound_invalidate hstep hremoved, congrArg (Diff.mk · _) hitems⟩
  | removeAll xs =>
    obtain ⟨hstep, hitems⟩ := hremoved.insertAll xs
    exact ⟨sound_invalidate hadded hstep, congrArg (Diff.mk _) hitems⟩
  | clearAdded => exact ⟨sound_invalidate IndexedSet.inStep_empty hremoved, rfl⟩
  | askAdded => exact ⟨h.effectiveAdded.sound, h.effectiveAdded.plain_eq⟩
  | askRemoved => exact ⟨h.effectiveRemoved.sound, h.effectiveRemoved.plain_eq⟩
  | askEmpty => exact ⟨h.isEmpty.sound, h.isEmpty.plain_eq⟩
  | askApplied base => exact ⟨(h.applyTo base).sound, (h.applyTo base).plain_eq⟩

/-- **Whatever happened to a new diff, it is sound**, and its items are those of the plain diff. -/
theorem sound_after (history : List (Step α)) :
    (after history).Sound ∧ (after history).plain = Diff.after history := by
  have hrun (diff : LazyDiff α) (h : diff.Sound) : (history.foldl LazyDiff.take diff).Sound ∧
      (history.foldl LazyDiff.take diff).plain = history.foldl Diff.take diff.plain := by
    induction history generalizing diff with
    | nil => exact ⟨h, rfl⟩
    | cons step history ih =>
      obtain ⟨hsound, hplain⟩ := h.take step
      rw [List.foldl_cons, List.foldl_cons, ← hplain]
      exact ih _ hsound
  exact hrun {} sound_empty

end LazyDiff

end Roster
