import Roster.Provision.Update

/-!
# Adding and removing values

Values are added to attributes of an entry, and the entry to groups, without touching what is there;
and likewise removed. References that groups still hold are not removed.
-/

namespace Roster.Provisioner

/-- Lets an entry join the groups listed for a kind under the reference that it has now. -/
def joinGroups (p : Provisioner) (dn : Dn) (requests : GroupRequests) (kind : MembershipKind) :
    Action Unit := do
  let groups := (requests.get kind).groups
  if groups.isEmpty then return ()
  let d := p.descriptor kind
  let reference ← p.requireCanonical kind dn (← d.readReferenceValues dn)
  d.addMemberships p.supply reference groups

/-- Adds values and memberships to the entry with an identifier. -/
def addValues (p : Provisioner) (entryClass : EntryClass) (uid : String)
    (attributes : List InputAttribute) : Action String := do
  let dn ← p.resolve entryClass uid
  let input ← ofInput (Input.partition .values attributes)
  let stored ← p.hashPassword (← p.choosePassword input)
  p.modifyValues dn .add input.ordinary
  p.writePassword dn .add stored
  MembershipKind.all.forM (p.joinGroups dn input.requests)
  return uid

/-- Fails if groups hold one of the references that are about to go. -/
def refuseInUse (p : Provisioner) (ordinary : Attributes) (kind : MembershipKind) :
    Cached Unit := do
  let d := p.descriptor kind
  let removed := (d.referenceValues none ordinary).getD []
  if !removed.isEmpty then
    let inUse ← lookUp kind (·.membershipsByReferences removed)
    if !inUse.isEmpty then
      throw (.referentialIntegrity (d.referenceAttribute?.getD "") kind
        (inUse.map fun m => m.group.text))

/-- The memberships to end in the groups listed for a kind. -/
def leaving (requests : GroupRequests) (kind : MembershipKind) :
    Cached (MembershipKind × List GroupMembership) := do
  let groups := (requests.get kind).groups
  if groups.isEmpty then return (kind, [])
  return (kind, ← lookUp kind (·.membershipsByGroups groups))

/-- The memberships of an entry that end, found before anything is removed. -/
def planLeaving (p : Provisioner) (input : Input) :
    Cached (List (MembershipKind × List GroupMembership)) := do
  let kinds := [MembershipKind.posix, .mailAlias]
  kinds.forM (p.refuseInUse input.ordinary)
  kinds.mapM (leaving input.requests)

/-- Removes values and memberships from the entry with an identifier. -/
def removeValues (p : Provisioner) (entryClass : EntryClass) (uid : String)
    (attributes : List InputAttribute) : Action String := do
  let dn ← p.resolve entryClass uid
  let input ← ofInput (Input.partition .values attributes)
  let stored ← p.hashPassword input.password
  let (ending, _) ← (p.planLeaving input).run (p.caches dn)
  p.modifyValues dn .delete input.ordinary
  p.writePassword dn .delete stored
  let static := (input.requests.static.groups).map fun group => ⟨dn.text, group⟩
  (p.descriptor .static).removeMemberships p.supply static
  ending.forM fun (kind, memberships) =>
    (p.descriptor kind).removeMemberships p.supply memberships
  return uid

end Roster.Provisioner
