import Roster.Membership.Kind

/-!
# Memberships and requests for them

A membership is a reference held by a group. A request for memberships of one kind keeps three cases
apart: nothing was asked, an empty list of groups was asked for, or some groups were.
-/

namespace Roster

/-- A reference in a group. -/
structure GroupMembership where
  /-- The value that the group holds. -/
  reference : String
  group : Dn
  deriving Repr

namespace GroupMembership

/-- Memberships are equal if their references are and their groups are spellings of one name. -/
instance : BEq GroupMembership :=
  ⟨fun a b => a.reference == b.reference && a.group.same b.group⟩

theorem beq_iff {a b : GroupMembership} :
    (a == b) = true ↔ a.reference = b.reference ∧ a.group.key = b.group.key := by
  simp [BEq.beq, Dn.same]

instance : EquivBEq GroupMembership where
  rfl := beq_iff.2 ⟨rfl, rfl⟩
  symm h := beq_iff.2 ⟨(beq_iff.1 h).1.symm, (beq_iff.1 h).2.symm⟩
  trans h k := beq_iff.2
    ⟨(beq_iff.1 h).1.trans (beq_iff.1 k).1, (beq_iff.1 h).2.trans (beq_iff.1 k).2⟩

/-- A membership in words. -/
def text (m : GroupMembership) : String :=
  s!"{m.reference} in {m.group.text}"

end GroupMembership

/-- What is asked for the memberships of one kind. -/
inductive GroupRequest where
  /-- Leave them alone. -/
  | untouched
  /-- End them all. -/
  | removeAll
  /-- Have them in exactly these groups. -/
  | replace (groups : List Dn)
  deriving DecidableEq, Repr

namespace GroupRequest

/-- The request that a list of groups makes. -/
def ofGroups (groups : List Dn) : GroupRequest :=
  if groups.isEmpty then .removeAll else .replace groups

/-- Whether nothing is asked. -/
def isUntouched : GroupRequest → Bool
  | .untouched => true
  | _ => false

/-- The groups asked for. -/
def groups : GroupRequest → List Dn
  | .replace groups => groups
  | _ => []

/-- Asks for one more group. -/
def push (request : GroupRequest) (group : Dn) : GroupRequest :=
  match request with
  | .replace groups => if group.isIn groups then request else .replace (groups ++ [group])
  | _ => .replace [group]

end GroupRequest

/-- What is asked for the memberships of each kind. -/
structure GroupRequests where
  static : GroupRequest := .untouched
  posix : GroupRequest := .untouched
  mailAlias : GroupRequest := .untouched
  deriving DecidableEq, Repr

namespace GroupRequests

/-- The request for a kind. -/
def get (requests : GroupRequests) : MembershipKind → GroupRequest
  | .static => requests.static
  | .posix => requests.posix
  | .mailAlias => requests.mailAlias

/-- Changes the request for a kind. -/
def set (requests : GroupRequests) (kind : MembershipKind) (request : GroupRequest) :
    GroupRequests :=
  match kind with
  | .static => { requests with static := request }
  | .posix => { requests with posix := request }
  | .mailAlias => { requests with mailAlias := request }

theorem get_set (requests : GroupRequests) (kind other : MembershipKind)
    (request : GroupRequest) :
    (requests.set kind request).get other =
      if kind = other then request else requests.get other := by
  cases kind <;> cases other <;> rfl

end GroupRequests

end Roster
