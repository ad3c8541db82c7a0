import Roster.OrderedSet

/-!
# Pending additions and removals

A diff collects items to add and items to remove. An item that is in both collections cancels out.
`between` leads from one collection to another, and `applyTo` carries a diff out.
-/

namespace Roster

/-- Items to add and items to remove, each in order of arrival. -/
structure Diff (α : Type) where
  added : List α := []
  removed : List α := []
  deriving Repr

namespace Diff

variable {α : Type} [BEq α]

/-- Asks for an item. -/
def add (diff : Diff α) (x : α) : Diff α :=
  { diff with added := OrderedSet.insert diff.added x }

/-- Asks for the end of an item. -/
def remove (diff : Diff α) (x : α) : Diff α :=
  { diff with removed := OrderedSet.insert diff.removed x }

/-- Asks for some items. -/
def addAll (diff : Diff α) (xs : List α) : Diff α :=
  { diff with added := OrderedSet.insertAll diff.added xs }

/-- Asks for the end of some items. -/
def removeAll (diff : Diff α) (xs : List α) : Diff α :=
  { diff with removed := OrderedSet.insertAll diff.removed xs }

omit [BEq α] in
/-- Forgets the items to add. -/
def clearAdded (diff : Diff α) : Diff α :=
  { diff with added := [] }

/-- The diff that leads from the current items to the desired ones. -/
def between (current desired : List α) : Diff α :=
  (({} : Diff α).removeAll current).addAll desired

/-- The items to add that are not also to be removed. -/
def effectiveAdded (diff : Diff α) : List α :=
  OrderedSet.difference diff.added diff.removed

/-- The items to remove that are not also to be added. -/
def effectiveRemoved (diff : Diff α) : List α :=
  OrderedSet.difference diff.removed diff.added

/-- Whether the diff changes nothing. -/
def isEmpty (diff : Diff α) : Bool :=
  diff.effectiveAdded.isEmpty && diff.effectiveRemoved.isEmpty

/-- The items of a set after removals and then additions. -/
def applyTo (diff : Diff α) (base : List α) : List α :=
  OrderedSet.insertAll (OrderedSet.difference base diff.effectiveRemoved) diff.effectiveAdded

end Diff

end Roster
