import Roster.Directory.Add
import Roster.Membership.Seed
import Roster.Provision.Basic

/-!
# Creating entries

A new entry is added with all its attributes and its password in one request, and then joins the
groups that its input lists. The references for the groups are found before anything is sent.
-/

namespace Roster.Provisioner

/-- The attributes of a new entry before its password: object classes are supplied if the input has
none, and a group gets a member if it needs one. -/
def newAttributes (p : Provisioner) (entryClass : EntryClass) (ordinary : Attributes) :
    Attributes :=
  let attrs :=
    if ordinary.contains "objectClass" then ordinary
    else ordinary.put "objectClass" (p.objectClasses entryClass)
  if entryClass = .group then
    seedMember p.configuration attrs (attrs.values "objectClass") p.configuration.principal
  else attrs

/-- The diff that lets a new entry join the groups listed for a kind, if any are listed. -/
def joining (p : Provisioner) (dn : Dn) (attrs : Attributes) (requests : GroupRequests)
    (kind : MembershipKind) : Action (Diff GroupMembership) := do
  let groups := (requests.get kind).groups
  if groups.isEmpty then return {}
  let reference ← p.requireCanonical kind dn ((p.descriptor kind).referenceValues (some dn) attrs)
  return ({} : Diff GroupMembership).addAll (groups.map fun group => ⟨reference, group⟩)

/-- Creates an entry and returns its identifier. -/
def create (p : Provisioner) (entryClass : EntryClass) (attributes : List InputAttribute) :
    Action String := do
  let input ← ofInput (Input.partition .create attributes)
  let dn ← ofInput (match input.name with
    | some dn => .ok dn
    | none => .error .missingName)
  let (ordinary, requests) := p.applyStatus input
  let attrs := p.newAttributes entryClass ordinary
  let diffs ← MembershipKind.all.mapM fun kind => do
    return (kind, ← p.joining dn attrs requests kind)
  let stored ← p.hashPassword (← p.choosePassword input)
  let attrs := match stored with
    | some value => attrs.put p.configuration.passwordAttribute [value]
    | none => attrs
  Directory.add p.supply dn attrs
  diffs.forM fun (kind, diff) => (p.descriptor kind).applyDiff p.supply diff
  p.identify entryClass dn

end Roster.Provisioner
