import Roster.Directory.Add

/-!
# Renaming entries

A renamed entry loses the values of its old relative name, gains those of the new one, and takes all
entries below it along. Moving an entry into its own subtree is not refused.
-/

namespace Roster

namespace Attributes

/-- The attributes without one value, ignoring ASCII case; an attribute without values goes. -/
def dropValue (attrs : Attributes) (ava : Ava) : Attributes :=
  match attrs.get? ava.type with
  | none => attrs
  | some values =>
    let kept := values.filter fun v => !Text.same v ava.value
    if kept.isEmpty then attrs.erase ava.type else attrs.put ava.type kept

/-- The attributes without the values of a relative name. -/
def dropRdn (attrs : Attributes) (rdn : Rdn) : Attributes :=
  rdn.avas.foldl dropValue attrs

end Attributes

namespace Directory

/-- The attributes of an entry renamed from `dn` to `renamed`. -/
def renamedAttributes (supply : Supply) (tick : Nat) (dn renamed : Dn) (rdn : Rdn)
    (attrs : Attributes) : Attributes :=
  let dropped := match dn.leaf? with
    | some old => attrs.dropRdn old
    | none => attrs
  ((dropped.extendByRdn rdn).put "entryDN" [renamed.text]).put
    "modifyTimestamp" [supply.time tick]

/-- Moves the entry with a key from below `dn` to below `renamed`. -/
def moveDescendant (dn renamed : Dn) (entries : Entries) (key : String) : Entries :=
  match entries.find? key with
  | none => entries
  | some e =>
    let moved := (e.dn.rebase? dn renamed).getD e.dn
    (entries.eraseKey key).insert ⟨moved, e.attributes.put "entryDN" [moved.text]⟩

/-- Moves all entries below `dn` to below `renamed`, in the order of their keys. -/
def moveDescendants (dn renamed : Dn) (entries : Entries) : Entries :=
  let below := entries.list.filter fun e => e.dn.isWithin dn && !e.dn.same dn
  (below.map fun e => e.dn.key).foldl (moveDescendant dn renamed) entries

/-- What becomes of the entries when one is renamed. -/
def afterRename (supply : Supply) (dn renamed : Dn) (rdn : Rdn) (dir : Directory) :
    Except DirectoryError (Dn × Entries) := do
  dir.checkWritable "rename" dn
  match dir.entry? dn with
  | none => throw (.noSuchObject dn.text)
  | some e =>
    if !renamed.same dn && (dir.entry? renamed).isSome then throw (.entryExists renamed.text)
    let attrs := renamedAttributes supply dir.handled dn renamed rdn e.attributes
    let entries := (dir.entries.erase dn).insert ⟨renamed, attrs⟩
    return (renamed, moveDescendants dn renamed entries)

/-- The name that an entry gets from a new relative name and, if given, a new parent. -/
def renamedDn (dn : Dn) (rdn : Rdn) (superior : Option Dn) : Dn :=
  ((superior <|> dn.parent?).getD .root).child rdn

/-- Renames an entry and moves what is below it; the result is the new name. -/
def rename (supply : Supply) (dn : Dn) (rdn : Rdn) (superior : Option Dn) : Action Dn :=
  perform (.rename dn (renamedDn dn rdn superior))
    (afterRename supply dn (renamedDn dn rdn superior) rdn)

end Directory

end Roster
