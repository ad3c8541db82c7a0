import Roster.Digest.Md5
import Roster.Digest.Sha1
import Roster.Text.Blank
import Roster.Text.Fold

/-!
# Ways to store a password

A password is stored as it is, or as a digest of it, or as a digest of it and a salt. An algorithm
is known by its name in any case; no name at all means storing as given.
-/

namespace Roster

/-- How passwords are stored. -/
inductive Algorithm where
  | plain
  | sha
  | ssha
  | md5
  | smd5
  deriving DecidableEq, Repr

namespace Algorithm

/-- The name of an algorithm. -/
def name : Algorithm → String
  | .plain => "NONE"
  | .sha => "SHA"
  | .ssha => "SSHA"
  | .md5 => "MD5"
  | .smd5 => "SMD5"

/-- Whether the digest covers a salt besides the password. -/
def salted : Algorithm → Bool
  | .ssha | .smd5 => true
  | _ => false

/-- The digest of some octets. -/
def digest : Algorithm → List UInt8 → List UInt8
  | .plain, octets => octets
  | .sha, octets | .ssha, octets => Digest.sha1 octets
  | .md5, octets | .smd5, octets => Digest.md5 octets

/-- The length of the digests that an algorithm stores. -/
def digestLength : Algorithm → Nat
  | .plain => 0
  | .sha | .ssha => 20
  | .md5 | .smd5 => 16

/-- The algorithm of a name, around which blanks do not count. -/
def ofName? (name : String) : Option Algorithm :=
  if Text.allBlank name then some .plain
  else [plain, sha, ssha, md5, smd5].find? fun a => Text.same a.name (Text.trimmed name)

theorem length_digest {a : Algorithm} (h : a ≠ .plain) (octets : List UInt8) :
    (a.digest octets).length = a.digestLength := by
  cases a <;> first | exact absurd rfl h | simp [digest, digestLength, Digest.length_sha1,
    Digest.length_md5]

end Algorithm

end Roster
