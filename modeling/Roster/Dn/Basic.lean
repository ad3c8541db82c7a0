import Roster.Dn.Escape
import Roster.Text.Blank
import Roster.Text.Fold
import Roster.Text.Lowercase
import Roster.Text.Sorted

/-!
# Distinguished names

A distinguished name is a list of relative names, the leaf first; a relative name is a list of
attribute-value pairs. Two names are the same name (`Dn.same`) if their keys are equal: the key
writes attribute types and values in lower case, drops blanks around values and orders the pairs of
a relative name. Containment compares relative names in the same way, from the root on
(`Dn.isWithin_iff`).
-/

namespace Roster

/-- An attribute type with one value of it. -/
structure Ava where
  type : String
  value : String
  deriving DecidableEq, Repr

/-- A relative distinguished name: the pairs that tell an entry from its siblings. -/
structure Rdn where
  avas : List Ava
  deriving DecidableEq, Repr

/-- A distinguished name, its leaf first; the root is the name without relative names. -/
structure Dn where
  rdns : List Rdn
  deriving DecidableEq, Repr

namespace Ava

/-- The pair as it is written in a name. -/
def text (a : Ava) : String :=
  a.type ++ "=" ++ Dn.escapeValue a.value

/-- The pair as it is written in a key. -/
def key (a : Ava) : String :=
  Text.fold a.type ++ "=" ++ Dn.escapeValue (Text.lowercase (Text.trimmed a.value))

end Ava

namespace Rdn

/-- The relative name of one pair. -/
def single (type value : String) : Rdn :=
  ⟨[⟨type, value⟩]⟩

/-- The relative name as it is written. -/
def text (r : Rdn) : String :=
  "+".intercalate (r.avas.map Ava.text)

/-- The text that all spellings of a relative name share. -/
def key (r : Rdn) : String :=
  "+".intercalate (Text.sorted (r.avas.map Ava.key))

/-- Whether two relative names are spellings of one. -/
def same (r s : Rdn) : Bool :=
  r.key == s.key

/-- The values that a relative name holds for an attribute type. -/
def valuesOf (r : Rdn) (type : String) : List String :=
  (r.avas.filter fun a => Text.same a.type type).map Ava.value

end Rdn

namespace Dn

/-- The name above all others. -/
def root : Dn :=
  ⟨[]⟩

/-- The number of relative names. -/
def length (d : Dn) : Nat :=
  d.rdns.length

/-- Whether this is the root. -/
def isRoot (d : Dn) : Bool :=
  d.rdns.isEmpty

/-- The name as it is written. -/
def text (d : Dn) : String :=
  ",".intercalate (d.rdns.map Rdn.text)

/-- The text that all spellings of a name share. -/
def key (d : Dn) : String :=
  ",".intercalate (d.rdns.map Rdn.key)

/-- Whether two names are spellings of one. -/
def same (d e : Dn) : Bool :=
  d.key == e.key

/-- Whether a list holds a spelling of a name. -/
def isIn (d : Dn) (ds : List Dn) : Bool :=
  ds.any d.same

/-- The relative name at the leaf, none for the root. -/
def leaf? (d : Dn) : Option Rdn :=
  d.rdns.head?

/-- The values that the leaf holds for an attribute type. -/
def leafValues (d : Dn) (type : String) : List String :=
  match d.leaf? with
  | some r => r.valuesOf type
  | none => []

/-- The name one level up, none for the root. -/
def parent? (d : Dn) : Option Dn :=
  match d.rdns with
  | [] => none
  | _ :: above => some ⟨above⟩

/-- The name of a child with a given leaf. -/
def child (d : Dn) (r : Rdn) : Dn :=
  ⟨r :: d.rdns⟩

/-- Whether a name is a base or lies anywhere below it. -/
def isWithin (d base : Dn) : Bool :=
  (base.rdns.map Rdn.key).isSuffixOf (d.rdns.map Rdn.key)

/-- Whether a name lies one level below a base. -/
def isChildOf (d base : Dn) : Bool :=
  d.length == base.length + 1 && d.isWithin base

/-- Moves a name from below `old` to below `new`; none if it is not within `old`. -/
def rebase? (d old new : Dn) : Option Dn :=
  if d.isWithin old then
    some ⟨d.rdns.take (d.length - old.length) ++ new.rdns⟩
  else none

/-! ## Lemmas -/

@[simp] theorem same_iff {d e : Dn} : d.same e = true ↔ d.key = e.key := by
  simp [same]

theorem isWithin_iff {d base : Dn} :
    d.isWithin base = true ↔ base.rdns.map Rdn.key <:+ d.rdns.map Rdn.key := by
  simp [isWithin]

theorem isWithin_refl (d : Dn) : d.isWithin d = true :=
  isWithin_iff.2 (List.suffix_refl _)

theorem isWithin_trans {d e f : Dn} (hde : d.isWithin e = true) (hef : e.isWithin f = true) :
    d.isWithin f = true :=
  isWithin_iff.2 ((isWithin_iff.1 hef).trans (isWithin_iff.1 hde))

@[simp] theorem length_child (d : Dn) (r : Rdn) : (d.child r).length = d.length + 1 :=
  rfl

@[simp] theorem parent?_child (d : Dn) (r : Rdn) : (d.child r).parent? = some d :=
  rfl

theorem isWithin_child (d : Dn) (r : Rdn) : (d.child r).isWithin d = true :=
  isWithin_iff.2 (by simp [child])

end Dn

/-- How far a search reaches below its base. -/
inductive Scope where
  | base
  | oneLevel
  | subtree
  deriving DecidableEq, Repr

/-- Whether a search from a base reaches a name. -/
def Scope.covers (scope : Scope) (base d : Dn) : Bool :=
  match scope with
  | .base => d.same base
  | .oneLevel => d.isChildOf base
  | .subtree => d.isWithin base

end Roster
