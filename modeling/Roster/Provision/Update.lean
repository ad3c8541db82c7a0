import Roster.Directory.Rename
import Roster.Provision.Basic

/-!
# Updating entries

An update replaces attributes of an entry, may rename it, and brings its memberships in line. It is
worked out in full, as an `UpdatePlan`, before the first request that changes anything. Only the
references of a renamed entry whose reference attribute is not part of the input are read later.
-/

namespace Roster.Provisioner

/-- A move of an entry to another name. -/
structure Rename where
  target : Dn
  rdn : Rdn
  /-- The new parent, if it is another one. -/
  superior : Option Dn
  deriving DecidableEq

/-- The move that a name asks for, none if the entry has that name already. -/
def renameFor? (dn : Dn) (name : Option Dn) : Option Rename := do
  let target ← name
  if target.same dn then none
  let rdn ← target.leaf?
  let superior := target.parent?.filter fun parent => !dn.parent?.any parent.same
  return ⟨target, rdn, superior⟩

/-- The references that an entry will have, none if they do not change or are not known. -/
def newReferences (d : KindDescriptor) (renamed : Bool) (target : Dn) (ordinary : Attributes) :
    Option (List String) := do
  let name ← d.referenceAttribute?
  if !renamed && !ordinary.contains name then none
  d.referenceValues (some target) ordinary

/-- Fails if an entry is about to lose its last reference of a kind while groups hold one. -/
def refuseOrphans (p : Provisioner) (kind : MembershipKind) (references : Option (List String)) :
    Cached Unit := do
  if references = some [] then
    let memberships ← lookUp kind MembershipCache.allMemberships
    if !memberships.isEmpty then
      throw (.referentialIntegrity ((p.descriptor kind).referenceAttribute?.getD "") kind
        (memberships.map fun m => m.group.text))

/-- The memberships of one kind that an update changes. -/
structure ReferencePlan where
  kind : MembershipKind
  diff : Diff GroupMembership
  /-- The groups to join once the references of the renamed entry are known. -/
  deferred : List Dn

/-- The memberships under references that an entry loses move to the least of its new ones. -/
def moveStale (p : Provisioner) (kind : MembershipKind) (target : Dn) (references : List String) :
    Cached (Diff GroupMembership) := do
  let old := (← lookUp kind MembershipCache.referenceValues).getD []
  let lost := old.filter fun r => !references.contains r
  let stale ← lookUp kind (·.membershipsByReferences lost)
  if stale.isEmpty then return {}
  let reference ← p.requireCanonical kind target (some references)
  return (({} : Diff GroupMembership).addAll
    (stale.map fun m => ⟨reference, m.group⟩)).removeAll stale

/-- The memberships of a kind that follow new references, if the kind is maintained. -/
def followReferences (p : Provisioner) (kind : MembershipKind) (target : Dn)
    (references : Option (List String)) : Cached (Diff GroupMembership) :=
  match references with
  | some new => if (p.descriptor kind).maintained then p.moveStale kind target new else pure {}
  | none => pure {}

/-- The references that an entry will have: the new ones if they are known, else those it has. -/
def comingReferences (kind : MembershipKind) (references : Option (List String)) :
    Cached (Option (List String)) :=
  match references with
  | some new => pure (some new)
  | none => lookUp kind MembershipCache.referenceValues

/-- Adds the listed groups to a diff. The references of a renamed entry that are not known yet leave
the groups to be joined later. -/
def planListed (p : Provisioner) (kind : MembershipKind) (target : Dn) (renamed : Bool)
    (references : Option (List String)) (groups : List Dn) (diff : Diff GroupMembership) :
    Cached ReferencePlan := do
  if groups.isEmpty then return ⟨kind, diff, []⟩
  if references.isNone && renamed then return ⟨kind, diff, groups⟩
  let reference ← p.requireCanonical kind target (← comingReferences kind references)
  return ⟨kind, diff.addAll (groups.map fun group => ⟨reference, group⟩), []⟩

/-- Works out the memberships of a kind whose references are attribute values. -/
def planReferences (p : Provisioner) (target : Dn) (renamed : Bool) (request : GroupRequest)
    (kind : MembershipKind) (references : Option (List String)) : Cached ReferencePlan := do
  let diff ← p.followReferences kind target references
  if request.isUntouched then return ⟨kind, diff, []⟩
  let existing ← lookUp kind MembershipCache.allMemberships
  p.planListed kind target renamed references request.groups (diff.removeAll existing).clearAdded

/-- Takes the attributes of a relative name out of the attributes to send. Those with values besides
the one in the relative name come back as replacements that keep this value. -/
def takeNaming : List Ava → Attributes → List Modification × Attributes
  | [], ordinary => ([], ordinary)
  | ava :: rest, ordinary =>
    let values := ordinary.values ava.type
    let (later, left) := takeNaming rest (ordinary.erase ava.type)
    if values.all fun v => Text.same v ava.value then (later, left)
    else
      let kept := if Text.holds values ava.value then values else ava.value :: values
      (⟨.replace, ava.type, kept⟩ :: later, left)

/-- Everything that an update will send. -/
structure UpdatePlan where
  dn : Dn
  rename : Option Rename
  /-- The attributes to replace before a move. -/
  ordinary : Attributes
  /-- The replacements of naming attributes after a move. -/
  naming : List Modification
  /-- The static memberships that were there, if they will be needed. -/
  existing : List GroupMembership
  /-- Whether static memberships follow the move. -/
  followRename : Bool
  static : GroupRequest
  references : List ReferencePlan
  password : Option String

/-- The name that an entry has after a move. -/
def targetOf (dn : Dn) (rename : Option Rename) : Dn :=
  match rename with
  | some r => r.target
  | none => dn

/-- Looks the static memberships up, if they will be needed, while the entry still has its name. -/
def loadStatic (needed : Bool) : Cached (List GroupMembership) :=
  if needed then lookUp .static MembershipCache.allMemberships else pure []

/-- The naming attributes to replace after a move, and the attributes to replace before it. -/
def splitNaming (rename : Option Rename) (ordinary : Attributes) :
    List Modification × Attributes :=
  match rename with
  | some r => takeNaming r.rdn.avas ordinary
  | none => ([], ordinary)

/-- Works out an update of the entry at a name. -/
def planUpdate (p : Provisioner) (dn : Dn) (input : Input) : Cached UpdatePlan := do
  let rename := renameFor? dn input.name
  let target := targetOf dn rename
  let newRefs kind := newReferences (p.descriptor kind) rename.isSome target input.ordinary
  p.refuseOrphans .posix (newRefs .posix)
  p.refuseOrphans .mailAlias (newRefs .mailAlias)
  let (ordinary, requests) := p.applyStatus input
  let password ← p.hashPassword (← p.choosePassword input)
  let followRename := rename.isSome && (p.descriptor .static).maintained
  let existing ← loadStatic (followRename || !requests.static.isUntouched)
  let references ← [MembershipKind.posix, .mailAlias].mapM fun kind =>
    p.planReferences target rename.isSome (requests.get kind) kind (newRefs kind)
  let (naming, ordinary) := splitNaming rename ordinary
  return { dn, rename, ordinary, naming, existing, followRename, static := requests.static,
           references, password }

/-- Sends a modification, unless it has no items. -/
def sendItems (p : Provisioner) (dn : Dn) (items : List Modification) : Action Unit :=
  if items.isEmpty then pure () else Directory.modify p.supply dn items

/-- Sends attributes as a modification with one item each, if there are any. -/
def modifyValues (p : Provisioner) (dn : Dn) (op : ModifyOp) (attrs : Attributes) : Action Unit :=
  p.sendItems dn (attrs.pairs.map fun (name, values) => ⟨op, name, values⟩)

/-- Moves the entry, if a move is asked for, and returns the name that it has then. -/
def move (p : Provisioner) (dn : Dn) (rename : Option Rename) : Action Dn :=
  match rename with
  | some r => Directory.rename p.supply dn r.rdn r.superior
  | none => pure dn

/-- The diff by which static memberships follow a move to a name. -/
def followMove (existing : List GroupMembership) (dn : Dn) : Diff GroupMembership :=
  (({} : Diff GroupMembership).addAll
    (existing.map fun m => ⟨dn.text, m.group⟩)).removeAll existing

/-- The diff of static memberships, for the name that the entry has now. -/
def staticDiff (plan : UpdatePlan) (dn : Dn) : Diff GroupMembership :=
  let diff := if plan.followRename then followMove plan.existing dn else {}
  if plan.static.isUntouched then diff
  else
    (diff.removeAll plan.existing).clearAdded.addAll
      (plan.static.groups.map fun group => ⟨dn.text, group⟩)

/-- Carries out the plan for one kind of memberships of the entry, now at this name. -/
def applyReferences (p : Provisioner) (dn : Dn) (plan : ReferencePlan) : Action Unit := do
  let d := p.descriptor plan.kind
  if plan.deferred.isEmpty then d.applyDiff p.supply plan.diff
  else
    let reference ← p.requireCanonical plan.kind dn (← d.readReferenceValues dn)
    d.applyDiff p.supply
      (plan.diff.addAll (plan.deferred.map fun group => ⟨reference, group⟩))

/-- Sends what an update has planned for the entry under the name that it has after a move. -/
def settle (p : Provisioner) (plan : UpdatePlan) (dn : Dn) : Action Unit := do
  p.sendItems dn plan.naming
  (p.descriptor .static).applyDiff p.supply (staticDiff plan dn)
  plan.references.forM (p.applyReferences dn)
  p.writePassword dn .replace plan.password

/-- Sends everything that an update has planned, and returns the name that the entry has then. -/
def carryOut (p : Provisioner) (plan : UpdatePlan) : Action Dn := do
  p.modifyValues plan.dn .replace plan.ordinary
  let dn ← p.move plan.dn plan.rename
  p.settle plan dn
  return dn

/-- Updates the entry with an identifier, and returns its identifier afterwards. -/
def update (p : Provisioner) (entryClass : EntryClass) (uid : String)
    (attributes : List InputAttribute) : Action String := do
  let dn ← p.resolve entryClass uid
  let input ← ofInput (Input.partition .update attributes)
  let (plan, _) ← (p.planUpdate dn input).run (p.caches dn)
  let updated ← p.carryOut plan
  p.identify entryClass updated

end Roster.Provisioner
