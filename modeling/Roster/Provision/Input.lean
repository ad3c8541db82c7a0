import Roster.Membership.Basic
import Roster.Password.Secret
import Roster.Provision.Error
import Roster.Text.Base64
import Roster.Text.Octets

/-!
# Input of an operation

An operation is given a list of attributes. Some names have a meaning of their own: the entry's
name, its identifier, the password, whether the entry is enabled, and the lists of its groups.
`partition` sorts the list into these pieces and the ordinary attributes; the first attribute that
is at fault decides the error.
-/

namespace Roster

/-- A value of an input attribute. -/
inductive InputValue where
  | text (s : String)
  | integer (i : Int)
  | boolean (b : Bool)
  | binary (octets : List UInt8)
  | secret (s : Secret)
  deriving DecidableEq

namespace InputValue

/-- The text that stands for a value in the directory; a secret has none. -/
def encode? : InputValue → Option String
  | .text s => some s
  | .integer i => some (toString i)
  | .boolean b => some (if b then "TRUE" else "FALSE")
  | .binary octets => some (Text.Base64.encodeText octets)
  | .secret _ => none

/-- The value, if it is a text. -/
def text? : InputValue → Option String
  | .text s => some s
  | _ => none

end InputValue

/-- An attribute as given to an operation. -/
structure InputAttribute where
  name : String
  values : List InputValue
  deriving DecidableEq

/-- What the name of an input attribute means. -/
inductive InputRole where
  | uid
  | name
  | groups (kind : MembershipKind)
  | password
  | enable
  | resetPassword
  | ordinary
  deriving DecidableEq, Repr

/-- The meaning of a name, in any case. -/
def InputRole.ofName (name : String) : InputRole :=
  if Text.same name "__UID__" then .uid
  else if Text.same name "__NAME__" then .name
  else
    match MembershipKind.ofListAttribute? name with
    | some kind => .groups kind
    | none =>
      if Text.same name "__PASSWORD__" then .password
      else if Text.same name "__ENABLE__" then .enable
      else if Text.same name "RESET_PASSWORD" then .resetPassword
      else .ordinary

/-- What an operation does with its input. -/
inductive InputMode where
  | create
  | update
  /-- Adding or removing single values. -/
  | values
  deriving DecidableEq, Repr

/-- The input of an operation, sorted. -/
structure Input where
  name : Option Dn := none
  enable : Option Bool := none
  requests : GroupRequests := {}
  password : Option Secret := none
  resetPassword : Bool := false
  ordinary : Attributes := .empty
  deriving DecidableEq

namespace InputAttribute

/-- The name that a value stands for. -/
def dnOf (a : InputAttribute) (v : InputValue) : Except ValidationError Dn :=
  match v.text? with
  | none => .error (.wrongType a.name .strings)
  | some raw =>
    match Dn.parse raw with
    | .error e => .error (.invalidDn a.name raw (some e))
    | .ok dn => if dn.isRoot then .error (.invalidDn a.name raw none) else .ok dn

/-- The one name that an attribute holds. -/
def singleDn (a : InputAttribute) : Except ValidationError Dn :=
  match a.values with
  | [v] => a.dnOf v
  | _ => .error (.wrongType a.name .oneString)

/-- The password that an attribute holds, none if it has no values. -/
def password (a : InputAttribute) : Except ValidationError (Option Secret) :=
  match a.values with
  | [] => .ok none
  | [.secret s] => .ok (some s)
  | [.text s] => .ok (some ⟨Text.octets s⟩)
  | _ => .error (.wrongType a.name .onePassword)

/-- The answer that the first value of an attribute gives, none if it has no values. -/
def boolean (a : InputAttribute) : Except ValidationError (Option Bool) :=
  match a.values with
  | [] => .ok none
  | .boolean b :: _ => .ok (some b)
  | .text s :: _ => .ok (some (Text.same s "true"))
  | _ => .error (.wrongType a.name .booleans)

/-- The texts of the values. -/
def encoded (a : InputAttribute) : Except ValidationError (List String) :=
  match a.values.mapM InputValue.encode? with
  | some values => .ok values
  | none => .error (.wrongType a.name .plain)

end InputAttribute

namespace Input

/-- Takes in the values of an ordinary attribute: the first attribute of a name as it is, of later
ones the values that are not there yet. Without values it is not sent on creation. -/
def addOrdinary (mode : InputMode) (input : Input) (name : String) (values : List String) :
    Input :=
  if values.isEmpty ∧ mode = .create then input
  else if input.ordinary.contains name then
    { input with ordinary := input.ordinary.extend name values }
  else { input with ordinary := input.ordinary.put name values }

/-- Takes in one attribute. -/
def take (mode : InputMode) (input : Input) (a : InputAttribute) :
    Except ValidationError Input := do
  match InputRole.ofName a.name with
  | .uid => throw .immutableUid
  | .name =>
    if mode = .values then throw .immutableName
    return { input with name := some (← a.singleDn) }
  | .groups kind =>
    let groups ← a.values.mapM a.dnOf
    return { input with requests := input.requests.set kind (.ofGroups groups) }
  | .password => return { input with password := ← a.password }
  | .enable => return { input with enable := ← a.boolean }
  | .resetPassword => return { input with resetPassword := (← a.boolean).getD false }
  | .ordinary => return input.addOrdinary mode a.name (← a.encoded)

/-- Sorts the attributes given to an operation. -/
def partition (mode : InputMode) (attributes : List InputAttribute) :
    Except ValidationError Input :=
  attributes.foldlM (take mode) {}

end Input

end Roster
