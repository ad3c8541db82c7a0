import Roster.Directory.Basic
import Roster.Supply

/-!
# Adding entries

A new entry needs a free name below a writable parent and, if it is a group that must have members,
at least one of them. It gets the values of its own relative name and what the server maintains: an
identifier, its name and two time stamps.
-/

namespace Roster

namespace Attributes

/-- The values of a relative name added to the attributes. -/
def extendByRdn (attrs : Attributes) (rdn : Rdn) : Attributes :=
  rdn.avas.foldl (fun attrs ava => attrs.extend ava.type [ava.value]) attrs

end Attributes

namespace Directory

/-- The object classes whose entries must have a member, with the attribute that holds members. -/
def mandatoryMembers : List (String × String) :=
  [("groupOfNames", "member"), ("groupOfUniqueNames", "uniqueMember")]

/-- The class and the attribute of the first mandatory member that is missing. -/
def missingMember? (attrs : Attributes) : Option (String × String) :=
  mandatoryMembers.find? fun (objectClass, name) =>
    Text.holds (attrs.values "objectClass") objectClass && (attrs.values name).isEmpty

/-- The attributes of a new entry. -/
def stamped (supply : Supply) (tick : Nat) (dn : Dn) (attrs : Attributes) : Attributes :=
  let named := match dn.leaf? with
    | some rdn => attrs.extendByRdn rdn
    | none => attrs
  (((named.put "entryUUID" [supply.uuid tick]).put "entryDN" [dn.text]).put
    "createTimestamp" [supply.time tick]).put "modifyTimestamp" [supply.time tick]

/-- What becomes of the entries when one is added. -/
def afterAdd (supply : Supply) (dn : Dn) (attrs : Attributes) (dir : Directory) :
    Except DirectoryError (Unit × Entries) := do
  match dn.parent? with
  | some parent => dir.checkWritable "add" parent
  | none => pure ()
  if (dir.entry? dn).isSome then throw (.entryExists dn.text)
  match missingMember? attrs with
  | some (objectClass, name) =>
    throw (.objectClassViolation dn.text
      s!"object class '{objectClass}' requires attribute '{name}'")
  | none => pure ()
  return ((), dir.entries.insert ⟨dn, stamped supply dir.handled dn attrs⟩)

/-- Adds an entry. -/
def add (supply : Supply) (dn : Dn) (attrs : Attributes) : Action Unit :=
  perform (.add dn) (afterAdd supply dn attrs)

end Directory

end Roster
