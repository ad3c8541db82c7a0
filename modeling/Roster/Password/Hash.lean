import Roster.Password.Algorithm
import Roster.Text.Base64
import Roster.Text.Octets

/-!
# Stored passwords

A hashed password is stored as the name of its algorithm in braces, followed by the digest and the
salt in Base64. A password that already starts with that name is stored as it is, and so is every
password if the algorithm says so; such a password has to be text. `hashWithSalt?_eq_none_iff` says that
nothing else can go wrong.
-/

namespace Roster.Password

/-- The number of octets of a salt. -/
def saltLength : Nat := 8

/-- The number of characters of a random password. -/
def randomLength : Nat := 30

/-- An octet with the case of an ASCII letter made small. -/
def foldOctet (b : UInt8) : UInt8 :=
  if 0x41 ≤ b ∧ b ≤ 0x5A then b + 0x20 else b

/-- Whether a password starts with the name of the algorithm in braces, in any case. -/
def isHashed (a : Algorithm) : List UInt8 → Bool
  | 0x7b :: rest =>
    rest.contains 0x7d
      && (rest.takeWhile (· != 0x7d)).map foldOctet == Text.octets (Text.fold a.name)
  | _ => false

/-- The text that stores a password with a salt; none if the password is to be stored as given and
is not text. -/
def hashWithSalt? (a : Algorithm) (password salt : List UInt8) : Option String :=
  if a = .plain ∨ isHashed a password then Text.ofOctets? password
  else
    some ("\x7b" ++ a.name ++ "\x7d"
      ++ Text.Base64.encodeText (a.digest (password ++ salt) ++ salt))

/-- The text that stores a password, with the given salt if the algorithm takes one. -/
def hash? (a : Algorithm) (password salt : List UInt8) : Option String :=
  hashWithSalt? a password (if a.salted then salt else [])

/-- Hashing fails only for a password that is to be stored as given and is not text. -/
theorem hashWithSalt?_eq_none_iff {a : Algorithm} {password salt : List UInt8} :
    hashWithSalt? a password salt = none ↔
      (a = .plain ∨ isHashed a password = true) ∧ Text.ofOctets? password = none := by
  unfold hashWithSalt?
  split <;> simp_all

end Roster.Password
