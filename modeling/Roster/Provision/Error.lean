import Roster.Directory.Error
import Roster.Membership.Kind
import Roster.Text.Quoted

/-!
# Failures of provisioning

An operation fails because its input is malformed, because it would leave memberships that refer to
nothing, because the directory refused a request, or because the configuration cannot be used.
-/

namespace Roster

/-- What values an input attribute must have. -/
inductive ExpectedValues where
  | strings
  | oneString
  | onePassword
  | booleans
  | plain
  deriving DecidableEq, Repr

/-- The expectation in words. -/
def ExpectedValues.text : ExpectedValues → String
  | .strings => "string"
  | .oneString => "exactly one string"
  | .onePassword => "a single password"
  | .booleans => "boolean"
  | .plain => "plain"

/-- What is wrong with the input of an operation. -/
inductive ValidationError where
  | immutableUid
  | immutableName
  | missingName
  /-- The fault is absent if the value is the empty name. -/
  | invalidDn (name value : String) (fault : Option Dn.ParseError)
  | wrongType (name : String) (expected : ExpectedValues)
  | missingReference (kind : MembershipKind) (dn name : String)
  | nonUtf8Password
  deriving DecidableEq, Repr

/-- The message of a validation error. -/
def ValidationError.message : ValidationError → String
  | .immutableUid => "Unable to modify an object's uid"
  | .immutableName => "Unable to modify an object's name"
  | .missingName => "No Name attribute provided in the attributes"
  | .invalidDn name value fault =>
    let reason := match fault with
      | some e => e.message
      | none => "empty DN"
    s!"Attribute '{name}' has an invalid DN '{value}': {reason}"
  | .wrongType name expected => s!"Attribute '{name}' expects {expected.text} values"
  | .missingReference kind dn name =>
    s!"Cannot add entry '{dn}' to {kind.label} groups because it has no '{name}' attribute"
  | .nonUtf8Password => "Password values stored as given must be valid UTF-8"

/-- Why an operation failed. -/
inductive ProvisioningError where
  | validation (e : ValidationError)
  /-- The groups still refer to values of the attribute. -/
  | referentialIntegrity (name : String) (kind : MembershipKind) (groups : List String)
  | directory (e : DirectoryError)
  | configuration (e : ConfigurationError)
  deriving DecidableEq, Repr

namespace ProvisioningError

/-- The message of a provisioning error. -/
def message : ProvisioningError → String
  | .validation e => s!"Validation error: {e.message}"
  | .referentialIntegrity name kind groups =>
    s!"Cannot remove the '{name}' attribute: still referenced by {kind.label} group memberships in "
      ++ Text.quotedList groups
  | .directory e => s!"Directory request failed: {e.message}"
  | .configuration e => s!"Configuration error: {e.message}"

/-- The directory error behind an error. -/
def directory? : ProvisioningError → Option DirectoryError
  | .directory e => some e
  | _ => none

/-- Whether the input is at fault. -/
def isValidation : ProvisioningError → Bool
  | .validation _ => true
  | _ => false

/-- Whether memberships would be left behind. -/
def isReferentialIntegrity : ProvisioningError → Bool
  | .referentialIntegrity .. => true
  | _ => false

end ProvisioningError

end Roster
