import Roster.Directory.Basic
import Roster.Supply

/-!
# Modifying entries

A modification is a list of items that take effect one after the other, all of them or none. Values
are compared ignoring ASCII case: an item can neither add a value that is there nor delete one that
is not. An attribute that loses its last value is gone.
-/

namespace Roster

namespace Attributes

/-- Adds one value, which must not be there. -/
def addValue (dn name : String) (attrs : Attributes) (value : String) :
    Except DirectoryError Attributes :=
  if Text.holds (attrs.values name) value then .error (.valueExists dn name (some value))
  else .ok (attrs.extend name [value])

/-- Gives an attribute new values; without values it goes. -/
def settle (attrs : Attributes) (name : String) (values : List String) : Attributes :=
  if values.isEmpty then attrs.erase name else attrs.put name values

/-- Deletes the first spelling of a value, which must be there. -/
def deleteValue (dn name : String) (attrs : Attributes) (value : String) :
    Except DirectoryError Attributes :=
  if Text.holds (attrs.values name) value then
    .ok (attrs.settle name ((attrs.values name).eraseP fun v => Text.same v value))
  else .error (.noSuchAttribute dn name (some value))

/-- Carries out one item on the attributes of the entry with this name. -/
def apply (dn : String) (attrs : Attributes) (item : Modification) :
    Except DirectoryError Attributes :=
  match item.op with
  | .add => item.values.foldlM (addValue dn item.name) attrs
  | .delete =>
    if item.values.isEmpty then
      if attrs.contains item.name then .ok (attrs.erase item.name)
      else .error (.noSuchAttribute dn item.name none)
    else item.values.foldlM (deleteValue dn item.name) attrs
  | .replace => .ok (attrs.settle item.name item.values)

/-- Carries out the items of a modification in order, up to the first that fails. -/
def applyAll (dn : String) (attrs : Attributes) (items : List Modification) :
    Except DirectoryError Attributes :=
  items.foldlM (apply dn) attrs

end Attributes

namespace Directory

/-- What becomes of the entries when one is modified. -/
def afterModify (supply : Supply) (dn : Dn) (items : List Modification) (dir : Directory) :
    Except DirectoryError (Unit × Entries) := do
  dir.checkWritable "modify" dn
  match dir.entry? dn with
  | none => throw (.noSuchObject dn.text)
  | some e =>
    let attrs ← e.attributes.applyAll dn.text items
    return ((), dir.entries.insert ⟨e.dn, attrs.put "modifyTimestamp" [supply.time dir.handled]⟩)

/-- Modifies the attributes of an entry. -/
def modify (supply : Supply) (dn : Dn) (items : List Modification) : Action Unit :=
  perform (.modify dn items) (afterModify supply dn items)

end Directory

end Roster
