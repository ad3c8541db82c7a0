import Roster.Directory.Modify
import Roster.Membership.Basic
import Roster.Membership.Diff

/-!
# Finding and changing memberships

Memberships are found by one search below each base context. They change by requests for a single
value of a single group; adding a value that the group holds already counts as done. A diff is
carried out removals first, up to the first request that fails.
-/

namespace Roster.KindDescriptor

open Directory (Action)

/-- The memberships of some references in a group. -/
def heldIn (d : KindDescriptor) (references : List String) (group : Entry) :
    List GroupMembership :=
  let stored := group.attributes.values d.memberAttribute
  (references.filter fun r => stored.any fun v => d.refersTo v r).map fun r => ⟨r, group.dn⟩

/-- The memberships of some references below the base contexts, each once. Without references there
is nothing to search for. -/
def findMemberships (d : KindDescriptor) (bases : List Dn) (references : List String) :
    Action (List GroupMembership) := do
  if references.isEmpty then return []
  let groups ← bases.mapM fun base =>
    Directory.search base .subtree (d.filter references) [d.memberAttribute]
  return OrderedSet.insertAll [] (groups.flatten.flatMap (d.heldIn references))

/-- Adds a reference to a group; one that is there already is no failure. -/
def addMembership (d : KindDescriptor) (supply : Supply) (m : GroupMembership) : Action Unit :=
  tryCatch (Directory.modify supply m.group [⟨.add, d.memberAttribute, [m.reference]⟩]) fun e =>
    if e.isValueExists then pure () else throw e

/-- Removes a reference from a group. -/
def removeMembership (d : KindDescriptor) (supply : Supply) (m : GroupMembership) :
    Action Unit :=
  Directory.modify supply m.group [⟨.delete, d.memberAttribute, [m.reference]⟩]

/-- Adds a reference to each of some groups in turn. -/
def addMemberships (d : KindDescriptor) (supply : Supply) (reference : String)
    (groups : List Dn) : Action Unit :=
  groups.forM fun group => d.addMembership supply ⟨reference, group⟩

/-- Ends each of some memberships in turn. -/
def removeMemberships (d : KindDescriptor) (supply : Supply) (memberships : List GroupMembership) :
    Action Unit :=
  memberships.forM (d.removeMembership supply)

/-- Carries out a diff: its removals, then its additions. -/
def applyDiff (d : KindDescriptor) (supply : Supply) (diff : Diff GroupMembership) :
    Action Unit := do
  d.removeMemberships supply diff.effectiveRemoved
  diff.effectiveAdded.forM (d.addMembership supply)

end Roster.KindDescriptor
