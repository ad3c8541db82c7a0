import Roster.Membership.Cache
import Roster.Password.Hash
import Roster.Provision.Input

/-!
# Provisioning

A provisioner carries out operations on the entries of a directory under a configuration. Entries
are known by an identifier, which is their name or a value of an attribute; `resolve` leads from the
identifier to the name and `identify` back.
-/

namespace Roster

/-- What sort of entry an operation is about. -/
inductive EntryClass where
  | account
  | group
  | other (name : String)
  deriving DecidableEq, Repr

/-- The name of a sort of entries. -/
def EntryClass.label : EntryClass → String
  | .account => "account"
  | .group => "group"
  | .other name => name

/-- How enabling and disabling an entry is expressed: by a change of the attributes that are sent
and of the memberships that are asked for. -/
abbrev StatusPolicy : Type :=
  Bool → Attributes × GroupRequests → Attributes × GroupRequests

/-- The policy that ignores whether an entry is enabled. -/
def StatusPolicy.ignore : StatusPolicy :=
  fun _ sent => sent

/-- What the operations on entries depend on, apart from the directory. -/
structure Provisioner where
  configuration : Configuration
  /-- The names of the base contexts. -/
  bases : List Dn
  algorithm : Algorithm
  status : StatusPolicy
  supply : Supply

namespace Provisioner

/-- A computation of an operation; what it did before it failed stays done. -/
abbrev Action (α : Type) : Type :=
  ExceptT ProvisioningError (StateM Directory) α

/-- A failed request fails the operation. -/
instance : MonadLift Directory.Action Action :=
  ⟨fun x => ExceptT.adapt ProvisioningError.directory x⟩

/-- Goes on if a check of the input succeeds. -/
def ofInput {α : Type} (checked : Except ValidationError α) : Action α :=
  match checked with
  | .ok a => pure a
  | .error e => throw (.validation e)

/-- The provisioner of a configuration. -/
def ofConfiguration (configuration : Configuration) (status : StatusPolicy) (supply : Supply) :
    Except ConfigurationError Provisioner := do
  configuration.check
  return ⟨configuration, ← configuration.bases, ← configuration.algorithm, status, supply⟩

/-- How groups of a kind refer to members. -/
def descriptor (p : Provisioner) (kind : MembershipKind) : KindDescriptor :=
  kind.descriptor p.configuration

/-- The object classes of a sort of entries. -/
def objectClasses (p : Provisioner) : EntryClass → List String
  | .account => p.configuration.accountObjectClasses
  | .group => p.configuration.groupObjectClasses
  | .other name => [name]

/-- The attribute that identifies a sort of entries. -/
def uidAttribute (p : Provisioner) : EntryClass → String
  | .group => p.configuration.gidAttribute
  | _ => p.configuration.uidAttribute

/-- Whether the name of an entry is its identifier. -/
def identifiesByName (p : Provisioner) (entryClass : EntryClass) : Bool :=
  Text.same (p.uidAttribute entryClass) p.configuration.dnAttribute
    || Text.same (p.uidAttribute entryClass) "dn"

/-- The entries of a sort with an identifier. -/
def uidFilter (p : Provisioner) (entryClass : EntryClass) (uid : String) : Filter :=
  let structural := match (p.objectClasses entryClass).getLast? with
    | some name => [.equals "objectClass" name]
    | none => []
  .all (.equals (p.uidAttribute entryClass) uid :: structural)

/-- The name of the entry with an identifier: the first one found. -/
def resolve (p : Provisioner) (entryClass : EntryClass) (uid : String) : Action Dn := do
  if p.identifiesByName entryClass then
    match Dn.parse uid with
    | .ok dn => return dn
    | .error e => throw (.directory (.ofParseError e))
  else
    let found ← p.bases.mapM fun base =>
      Directory.search base .subtree (p.uidFilter entryClass uid) [p.uidAttribute entryClass]
    match found.flatten with
    | e :: _ => return e.dn
    | [] => throw (.directory (.noSuchObject uid))

/-- The identifier of the entry at a name. -/
def identify (p : Provisioner) (entryClass : EntryClass) (dn : Dn) : Action String := do
  if p.identifiesByName entryClass then
    return dn.text
  else
    let name := p.uidAttribute entryClass
    match ← Directory.read dn [name] with
    | none => throw (.directory (.noSuchObject dn.text))
    | some e =>
      match e.attributes.first? name with
      | some uid => return uid
      | none => throw (.directory (.noSuchAttribute dn.text name none))

/-- The reference to write into groups of a kind, which the entry must have. -/
def requireCanonical (p : Provisioner) (kind : MembershipKind) (dn : Dn)
    (references : Option (List String)) : Action String :=
  match references.bind canonicalReference? with
  | some reference => pure reference
  | none =>
    let name := (p.descriptor kind).referenceAttribute?.getD "dn"
    throw (.validation (.missingReference kind dn.text name))

/-- What is sent of an input: its attributes and memberships, changed by the status policy if the
input says whether the entry is enabled. -/
def applyStatus (p : Provisioner) (input : Input) : Attributes × GroupRequests :=
  match input.enable with
  | some enabled => p.status enabled (input.ordinary, input.requests)
  | none => (input.ordinary, input.requests)

/-! ## Passwords -/

/-- The password to set: a random one if that is asked for. -/
def choosePassword (p : Provisioner) (input : Input) : Action (Option Secret) := do
  if input.resetPassword then
    return some (.random (p.supply.die (← get).handled) Password.randomLength)
  else return input.password

/-- The text that stores a password, if there is one to store. -/
def hashPassword (p : Provisioner) (password : Option Secret) : Action (Option String) := do
  match password with
  | none => return none
  | some secret =>
    match Password.hash? p.algorithm secret.octets (p.supply.salt (← get).handled) with
    | some stored => return some stored
    | none => throw (.validation .nonUtf8Password)

/-- Sends a stored password, if there is one, as a request of its own. -/
def writePassword (p : Provisioner) (dn : Dn) (op : ModifyOp) (stored : Option String) :
    Action Unit :=
  match stored with
  | none => pure ()
  | some value =>
    Directory.modify p.supply dn [⟨op, p.configuration.passwordAttribute, [value]⟩]

/-! ## Look-ups that are made once -/

/-- The caches of one entry, one for each kind of groups. -/
structure Caches where
  static : MembershipCache
  posix : MembershipCache
  mailAlias : MembershipCache

namespace Caches

/-- The cache of a kind. -/
def get (caches : Caches) : MembershipKind → MembershipCache
  | .static => caches.static
  | .posix => caches.posix
  | .mailAlias => caches.mailAlias

/-- Changes the cache of a kind. -/
def set (caches : Caches) (kind : MembershipKind) (cache : MembershipCache) : Caches :=
  match kind with
  | .static => { caches with static := cache }
  | .posix => { caches with posix := cache }
  | .mailAlias => { caches with mailAlias := cache }

end Caches

/-- The empty caches of an entry. -/
def caches (p : Provisioner) (dn : Dn) : Caches :=
  let cache (kind : MembershipKind) : MembershipCache :=
    { descriptor := p.descriptor kind, bases := p.bases, dn }
  ⟨cache .static, cache .posix, cache .mailAlias⟩

/-- A computation that looks things up in the caches of an entry. -/
abbrev Cached (α : Type) : Type :=
  StateT Caches Action α

/-- Looks something up in the cache of a kind. -/
def lookUp {α : Type} (kind : MembershipKind)
    (query : MembershipCache → Directory.Action (α × MembershipCache)) : Cached α := do
  let (a, cache) ← query ((← getThe Caches).get kind)
  modify fun caches => caches.set kind cache
  return a

end Provisioner

end Roster
