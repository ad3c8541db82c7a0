import Roster.Dn.Parser
import Roster.Password.Algorithm

/-!
# Configuration

The names of the attributes that carry identifiers, passwords and memberships, and the choices that
an installation makes. `Configuration.check` says whether a configuration can be used: base contexts
first, then the names that must not be blank, then the algorithm for passwords.
-/

namespace Roster

/-- The settings of an installation. -/
structure Configuration where
  /-- Where entries and groups are looked for. -/
  baseContexts : List String := []
  /-- The member that a group gets when it needs one and has none. -/
  principal : String := ""
  /-- Where static groups hold the names of their members. -/
  groupMemberAttribute : String := "uniqueMember"
  /-- Where alias groups hold the addresses of their members. -/
  aliasGroupMemberAttribute : String := "rfc822MailMember"
  /-- Where members hold the addresses that alias groups use. -/
  aliasGroupMemberRefAttribute : String := "mail"
  /-- Whether static memberships follow a renamed entry. -/
  maintainLdapGroupMembership : Bool := false
  /-- Whether POSIX memberships follow changed reference values. -/
  maintainPosixGroupMembership : Bool := false
  /-- Whether alias memberships follow changed reference values. -/
  maintainAliasGroupMembership : Bool := false
  /-- Where passwords are stored. -/
  passwordAttribute : String := "userPassword"
  /-- The name of the algorithm for passwords; none means storing as given. -/
  passwordHashAlgorithm : Option String := none
  /-- Where accounts hold their identifier. -/
  uidAttribute : String := "entryUUID"
  /-- Where groups hold their identifier. -/
  gidAttribute : String := "entryUUID"
  /-- Where entries hold their own name. -/
  dnAttribute : String := "entryDN"
  /-- The object classes of an account. -/
  accountObjectClasses : List String :=
    ["top", "person", "organizationalPerson", "inetOrgPerson"]
  /-- The object classes of a group. -/
  groupObjectClasses : List String := ["top", "groupOfUniqueNames"]
  deriving DecidableEq, Repr

/-- Why a configuration cannot be used. -/
inductive ConfigurationError where
  | unsupportedAlgorithm (name : String)
  | blankProperty (property : String)
  | missingBaseContexts
  /-- The fault is absent if the context is blank. -/
  | invalidBaseContext (context : String) (fault : Option Dn.ParseError)
  | invalidDocument
  deriving DecidableEq, Repr

/-- The message of an unreadable name. -/
def Dn.ParseError.message (e : Dn.ParseError) : String :=
  s!"Invalid DN '{e.text}': {e.fault.message}"

/-- The message of a configuration error. -/
def ConfigurationError.message : ConfigurationError → String
  | .unsupportedAlgorithm name => s!"Unsupported hash algorithm: {name}"
  | .blankProperty property => s!"Configuration property '{property}' must not be blank"
  | .missingBaseContexts => "At least one base context is required"
  | .invalidBaseContext context fault =>
    let reason := match fault with
      | some e => e.message
      | none => "base context is blank"
    s!"Invalid base context '{context}': {reason}"
  | .invalidDocument => "Invalid configuration document"

namespace Configuration

/-- Reads a base context. -/
def parseContext (context : String) : Except ConfigurationError Dn :=
  if Text.allBlank context then .error (.invalidBaseContext context none)
  else
    match Dn.parse context with
    | .ok d => .ok d
    | .error e => .error (.invalidBaseContext context (some e))

/-- The names of the base contexts. -/
def bases (c : Configuration) : Except ConfigurationError (List Dn) :=
  if c.baseContexts.isEmpty then .error .missingBaseContexts else c.baseContexts.mapM parseContext

/-- The algorithm for passwords. -/
def algorithm (c : Configuration) : Except ConfigurationError Algorithm :=
  match c.passwordHashAlgorithm with
  | none => .ok .plain
  | some name =>
    match Algorithm.ofName? name with
    | some a => .ok a
    | none => .error (.unsupportedAlgorithm (Text.trimmed name))

/-- The properties that must not be blank, with their values. -/
def required (c : Configuration) : List (String × String) :=
  [("groupMemberAttribute", c.groupMemberAttribute),
   ("aliasGroupMemberRefAttribute", c.aliasGroupMemberRefAttribute),
   ("passwordAttribute", c.passwordAttribute), ("uidAttribute", c.uidAttribute),
   ("gidAttribute", c.gidAttribute), ("dnAttribute", c.dnAttribute)]

/-- Whether the configuration can be used. -/
def check (c : Configuration) : Except ConfigurationError Unit := do
  let _ ← c.bases
  match c.required.find? fun property => Text.allBlank property.2 with
  | some (property, _) => throw (.blankProperty property)
  | none => pure ()
  let _ ← c.algorithm

/-- Where alias groups hold their members: the default if the setting is blank. -/
def aliasMemberAttribute (c : Configuration) : String :=
  if Text.allBlank c.aliasGroupMemberAttribute then "rfc822MailMember"
  else c.aliasGroupMemberAttribute

end Configuration

end Roster
