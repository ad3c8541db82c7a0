import Roster.Config.Basic
import Roster.Filter

/-!
# Kinds of group membership

There are three kinds of groups. They differ in the attribute that holds the references to their
members and in what a reference is: the name of the member, or a value of one of its attributes. A
`KindDescriptor` states both for a configuration; everything else about memberships is the same for
all kinds.
-/

namespace Roster

/-- The kinds of groups. -/
inductive MembershipKind where
  | static
  | posix
  | mailAlias
  deriving DecidableEq, Repr

namespace MembershipKind

/-- The kinds in the order in which memberships are handled. -/
def all : List MembershipKind :=
  [static, posix, mailAlias]

/-- The name of a kind in messages. -/
def label : MembershipKind → String
  | .static => "LDAP"
  | .posix => "POSIX"
  | .mailAlias => "alias"

/-- The input attribute that lists groups of a kind. -/
def listAttribute : MembershipKind → String
  | .static => "ldapGroups"
  | .posix => "posixGroups"
  | .mailAlias => "aliasGroups"

/-- The kind whose groups an input attribute lists. -/
def ofListAttribute? (name : String) : Option MembershipKind :=
  all.find? fun kind => Text.same kind.listAttribute name

theorem mem_all (kind : MembershipKind) : kind ∈ all := by
  cases kind <;> decide

end MembershipKind

/-- What refers to a member. -/
inductive Reference where
  /-- The name of the member. -/
  | name
  /-- A value of an attribute of the member. -/
  | valueOf (attributeName : String)
  deriving DecidableEq, Repr

/-- How groups of a kind refer to their members. -/
structure KindDescriptor where
  kind : MembershipKind
  /-- Where groups hold the references. -/
  memberAttribute : String
  reference : Reference
  /-- Whether memberships follow changes of the reference. -/
  maintained : Bool
  deriving DecidableEq, Repr

/-- How groups of a kind refer to their members under a configuration. -/
def MembershipKind.descriptor (kind : MembershipKind) (c : Configuration) : KindDescriptor :=
  match kind with
  | .static => ⟨kind, c.groupMemberAttribute, .name, c.maintainLdapGroupMembership⟩
  | .posix => ⟨kind, "memberUid", .valueOf "uid", c.maintainPosixGroupMembership⟩
  | .mailAlias =>
    ⟨kind, c.aliasMemberAttribute, .valueOf c.aliasGroupMemberRefAttribute,
      c.maintainAliasGroupMembership⟩

namespace KindDescriptor

/-- The attribute whose values are references, none if names are. -/
def referenceAttribute? (d : KindDescriptor) : Option String :=
  match d.reference with
  | .name => none
  | .valueOf attributeName => some attributeName

/-- The groups that hold one of some references. -/
def filter (d : KindDescriptor) (references : List String) : Filter :=
  .anyOf d.memberAttribute references

/-- The references of an entry with this name, if known, and these attributes: the name itself, or
the values in the leaf of the name followed by the other values of the reference attribute. None
says that the name is unknown or the attribute absent. -/
def referenceValues (d : KindDescriptor) (dn : Option Dn) (attrs : Attributes) :
    Option (List String) :=
  match d.reference with
  | .name => dn.map fun dn => [dn.text]
  | .valueOf attributeName =>
    let inLeaf := match dn with
      | some dn => dn.leafValues attributeName
      | none => []
    match attrs.get? attributeName with
    | some values => some (OrderedSet.insertAll inLeaf values)
    | none => if inLeaf.isEmpty then none else some inLeaf

/-- Whether a value that a group holds is a spelling of a reference. -/
def refersTo (d : KindDescriptor) (stored reference : String) : Bool :=
  match d.reference with
  | .name =>
    match Dn.parse stored, Dn.parse reference with
    | .ok a, .ok b => a.same b
    | _, _ => Text.same stored reference
  | .valueOf _ => Text.same stored reference

end KindDescriptor

/-- The reference that is written into groups: the least one. -/
def canonicalReference? (references : List String) : Option String :=
  Text.least? references

end Roster
