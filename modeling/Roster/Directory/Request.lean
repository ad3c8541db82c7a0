import Roster.Filter

/-!
# Directory requests

What can be asked of a directory, in the form in which the journal keeps it.
-/

namespace Roster

/-- What an item of a modification does with its values. -/
inductive ModifyOp where
  | add
  | delete
  | replace
  deriving DecidableEq, Repr

/-- One item of a modification. -/
structure Modification where
  op : ModifyOp
  name : String
  values : List String
  deriving DecidableEq, Repr

/-- A request as the journal keeps it. -/
inductive Request where
  | search (base : Dn) (filter : Filter)
  | read (dn : Dn)
  | add (dn : Dn)
  | modify (dn : Dn) (items : List Modification)
  | rename (dn renamed : Dn)
  deriving Repr

/-- Whether a request asks for a change. -/
def Request.isMutation : Request → Bool
  | .search .. | .read _ => false
  | .add _ | .modify .. | .rename .. => true

end Roster
