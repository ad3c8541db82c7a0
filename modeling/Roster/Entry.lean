import Roster.Attributes
import Roster.Dn.Basic

/-!
# Entries

An entry is a distinguished name with attributes.
-/

namespace Roster

/-- A named set of attributes. -/
structure Entry where
  dn : Dn
  attributes : Attributes
  deriving DecidableEq, Repr

/-- The object classes that an entry lists. -/
def Entry.objectClasses (entry : Entry) : List String :=
  entry.attributes.values "objectClass"

end Roster
