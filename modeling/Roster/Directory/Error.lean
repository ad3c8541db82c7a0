import Roster.Config.Basic

/-!
# Failures of directory requests

What a directory can report about a request that it did not carry out. Names and filters stand in
errors as they were written.
-/

namespace Roster

/-- Why a directory request failed. -/
inductive DirectoryError where
  | noSuchObject (dn : String)
  /-- The value is absent if the whole attribute is meant. -/
  | valueExists (dn name : String) (value : Option String)
  /-- The value is absent if the whole attribute is meant. -/
  | noSuchAttribute (dn name : String) (value : Option String)
  | entryExists (dn : String)
  | insufficientAccess (operation dn : String)
  | objectClassViolation (dn reason : String)
  | invalidFilter (filter reason : String)
  | invalidDn (dn reason : String)
  | unavailable (reason : String)
  /-- Any other failure, with the text of the failure behind it if there is one. -/
  | internal (reason : String) (source : Option String)
  deriving DecidableEq, Repr

namespace DirectoryError

/-- The message of a directory error. -/
def message : DirectoryError → String
  | .noSuchObject dn => s!"No such object: {dn}"
  | .valueExists dn name (some value) =>
    s!"Value '{value}' of attribute '{name}' already exists on {dn}"
  | .valueExists dn name none => s!"Attribute '{name}' already exists on {dn}"
  | .noSuchAttribute dn name (some value) =>
    s!"Value '{value}' of attribute '{name}' not present on {dn}"
  | .noSuchAttribute dn name none => s!"Attribute '{name}' not present on {dn}"
  | .entryExists dn => s!"Entry already exists: {dn}"
  | .insufficientAccess operation dn => s!"Insufficient access for {operation} on {dn}"
  | .objectClassViolation dn reason => s!"Object class violation on {dn}: {reason}"
  | .invalidFilter filter reason => s!"Invalid filter '{filter}': {reason}"
  | .invalidDn dn reason => s!"Invalid DN '{dn}': {reason}"
  | .unavailable reason => s!"Directory unavailable: {reason}"
  | .internal reason _ => s!"Internal directory error: {reason}"

/-- The failure behind an error. -/
def source? : DirectoryError → Option String
  | .internal _ source => source
  | _ => none

/-- Whether an error reports an entry that does not exist. -/
def isNotFound : DirectoryError → Bool
  | .noSuchObject _ => true
  | _ => false

/-- Whether an error reports a value that is there already. -/
def isValueExists : DirectoryError → Bool
  | .valueExists .. => true
  | _ => false

/-- Whether an error reports an entry or a value that is there already. -/
def isConflict : DirectoryError → Bool
  | .valueExists .. | .entryExists _ => true
  | _ => false

/-- Whether the same request may succeed later. -/
def isTemporary : DirectoryError → Bool
  | .unavailable _ => true
  | _ => false

/-- The error of a name that cannot be read. -/
def ofParseError (e : Dn.ParseError) : DirectoryError :=
  .invalidDn e.text e.fault.message

theorem message_ofParseError (e : Dn.ParseError) : (ofParseError e).message = e.message :=
  rfl

end DirectoryError

end Roster
