import Roster.Config.Basic
import Roster.Attributes

/-!
# Groups that must have a member

Some object classes of groups require a member. A new group of such a class that names none gets the
principal of the configuration.
-/

namespace Roster

/-- The object classes of groups that must have a member. -/
def memberRequiringClasses : List String :=
  ["groupOfNames", "groupOfUniqueNames"]

/-- Whether a new group of some object classes lacks the member that it needs. -/
def needsMemberSeed (c : Configuration) (attrs : Attributes) (classes : List String) : Bool :=
  classes.any memberRequiringClasses.contains && (attrs.values c.groupMemberAttribute).isEmpty

/-- The attributes of a new group, with a first member if it needs one. -/
def seedMember (c : Configuration) (attrs : Attributes) (classes : List String)
    (member : String) : Attributes :=
  if needsMemberSeed c attrs classes then attrs.put c.groupMemberAttribute [member] else attrs

end Roster
