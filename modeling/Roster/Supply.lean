/-!
# What comes from outside

Identifiers, clock readings, salts and throws of a die come from outside. Each is a sequence, read
at the number of requests that a directory has handled so far.
-/

namespace Roster

/-- What the surroundings provide. -/
structure Supply where
  /-- Identifiers of new entries. -/
  uuid : Nat → String
  /-- Clock readings, as time stamps of entries. -/
  time : Nat → String
  /-- Salts of stored passwords. -/
  salt : Nat → List UInt8
  /-- Throws of a die, a sequence of them for each random password. -/
  die : Nat → Nat → Nat

end Roster
