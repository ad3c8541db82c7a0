import Roster.Config.Basic
import Roster.Json.Parser

/-!
# Configuration documents

A configuration is written as a JSON object whose members are the properties, or as an array of the
properties' values in their order. Properties left out keep their defaults. Members that are no
property are ignored; a property given twice, an item too many and a value of the wrong type are
refused.
-/

namespace Roster.Configuration

/-- A property: its name in documents and how a value is stored in a configuration. -/
structure Property where
  name : String
  store : JsonValue → Configuration → Option Configuration

/-- A text value. -/
def textOf? : JsonValue → Option String
  | .string text => text
  | _ => none

/-- A value that says yes or no. -/
def booleanOf? : JsonValue → Option Bool
  | .boolean b => some b
  | _ => none

/-- A list of text values. -/
def textsOf? : JsonValue → Option (List String)
  | .array items => items.mapM textOf?
  | _ => none

/-- A text value that may be absent. -/
def optionalTextOf? : JsonValue → Option (Option String)
  | .null => some none
  | v => (textOf? v).map some

/-- All properties, in the order in which an array gives their values. -/
def properties : List Property :=
  [⟨"baseContexts", fun v c => do return { c with baseContexts := ← textsOf? v }⟩,
   ⟨"principal", fun v c => do return { c with principal := ← textOf? v }⟩,
   ⟨"groupMemberAttribute", fun v c => do return { c with groupMemberAttribute := ← textOf? v }⟩,
   ⟨"aliasGroupMemberAttribute",
    fun v c => do return { c with aliasGroupMemberAttribute := ← textOf? v }⟩,
   ⟨"aliasGroupMemberRefAttribute",
    fun v c => do return { c with aliasGroupMemberRefAttribute := ← textOf? v }⟩,
   ⟨"maintainLdapGroupMembership",
    fun v c => do return { c with maintainLdapGroupMembership := ← booleanOf? v }⟩,
   ⟨"maintainPosixGroupMembership",
    fun v c => do return { c with maintainPosixGroupMembership := ← booleanOf? v }⟩,
   ⟨"maintainAliasGroupMembership",
    fun v c => do return { c with maintainAliasGroupMembership := ← booleanOf? v }⟩,
   ⟨"passwordAttribute", fun v c => do return { c with passwordAttribute := ← textOf? v }⟩,
   ⟨"passwordHashAlgorithm",
    fun v c => do return { c with passwordHashAlgorithm := ← optionalTextOf? v }⟩,
   ⟨"uidAttribute", fun v c => do return { c with uidAttribute := ← textOf? v }⟩,
   ⟨"gidAttribute", fun v c => do return { c with gidAttribute := ← textOf? v }⟩,
   ⟨"dnAttribute", fun v c => do return { c with dnAttribute := ← textOf? v }⟩,
   ⟨"accountObjectClasses",
    fun v c => do return { c with accountObjectClasses := ← textsOf? v }⟩,
   ⟨"groupObjectClasses", fun v c => do return { c with groupObjectClasses := ← textsOf? v }⟩]

/-- Stores the members of an object; `pending` are the properties not yet given. -/
def ofMembers? (pending : List Property) (c : Configuration) :
    List (Option String × JsonValue) → Option Configuration
  | [] => some c
  | (key, v) :: rest => do
    let name ← key
    match pending.find? (·.name == name) with
    | some property =>
      ofMembers? (pending.filter (·.name != name)) (← property.store v c) rest
    | none =>
      if properties.any (·.name == name) then none else ofMembers? pending c rest

/-- Stores the items of an array in the properties of their places. -/
def ofItems? : List Property → Configuration → List JsonValue → Option Configuration
  | _, c, [] => some c
  | [], _, _ :: _ => none
  | property :: rest, c, v :: vs => do ofItems? rest (← property.store v c) vs

/-- The configuration that a JSON value describes. -/
def ofJson? : JsonValue → Option Configuration
  | .object members => ofMembers? properties {} members
  | .array items => ofItems? properties {} items
  | _ => none

/-- Reads a configuration document and checks the configuration. -/
def ofDocument (document : String) : Except ConfigurationError Configuration := do
  match (JsonValue.parse? document).bind ofJson? with
  | none => throw .invalidDocument
  | some c =>
    c.check
    return c

end Roster.Configuration
