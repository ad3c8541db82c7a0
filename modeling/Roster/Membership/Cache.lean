import Roster.Membership.Groups

/-!
# Memberships of one entry

A cache looks up the references and the memberships of one entry for one kind, each at most once.
Every operation returns the cache for further use beside its result.
-/

namespace Roster

open Directory (Action)

/-- The references of the stored entry at a name. Names need no look-up. -/
def KindDescriptor.readReferenceValues (d : KindDescriptor) (dn : Dn) :
    Action (Option (List String)) := do
  match d.reference with
  | .name => return some [dn.text]
  | .valueOf attributeName =>
    match ← Directory.read dn [attributeName] with
    | none => throw (.noSuchObject dn.text)
    | some e => return d.referenceValues none e.attributes

/-- What is known of the references and memberships of an entry. -/
structure MembershipCache where
  descriptor : KindDescriptor
  bases : List Dn
  dn : Dn
  references : Option (Option (List String)) := none
  memberships : Option (List GroupMembership) := none

namespace MembershipCache

/-- The references of the entry; none if it has no attribute for them. -/
def referenceValues (cache : MembershipCache) :
    Action (Option (List String) × MembershipCache) := do
  match cache.references with
  | some references => return (references, cache)
  | none =>
    let references ← cache.descriptor.readReferenceValues cache.dn
    return (references, { cache with references := some references })

/-- The memberships of the entry under any of its references. -/
def allMemberships (cache : MembershipCache) :
    Action (List GroupMembership × MembershipCache) := do
  match cache.memberships with
  | some memberships => return (memberships, cache)
  | none =>
    let (references, cache) ← cache.referenceValues
    let memberships ← cache.descriptor.findMemberships cache.bases (references.getD [])
    return (memberships, { cache with memberships := some memberships })

/-- The memberships under one of some references, spelled as they are. -/
def membershipsByReferences (cache : MembershipCache) (references : List String) :
    Action (List GroupMembership × MembershipCache) := do
  let (memberships, cache) ← cache.allMemberships
  return (memberships.filter fun m => references.contains m.reference, cache)

/-- The memberships in one of some groups. -/
def membershipsByGroups (cache : MembershipCache) (groups : List Dn) :
    Action (List GroupMembership × MembershipCache) := do
  let (memberships, cache) ← cache.allMemberships
  return (memberships.filter fun m => m.group.isIn groups, cache)

end MembershipCache

end Roster
