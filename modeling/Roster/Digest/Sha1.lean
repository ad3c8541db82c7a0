import Roster.Digest.Block

/-!
# SHA-1

The digest of 160 bits. Each block is stretched to eighty words (`schedule`), which eighty rounds
mix into five words of state. `length_sha1` gives the length of the result.
-/

namespace Roster.Digest

/-- The five words of state. -/
structure Sha1State where
  a : UInt32
  b : UInt32
  c : UInt32
  d : UInt32
  e : UInt32

namespace Sha1State

/-- The state before the first block. -/
def initial : Sha1State :=
  ⟨0x67452301, 0xEFCDAB89, 0x98BADCFE, 0x10325476, 0xC3D2E1F0⟩

/-- Stretches a block by `n` words; the latest word stands first. -/
def stretch : Nat → List UInt32 → List UInt32
  | 0, words => words
  | n + 1, words =>
    let word := words.getD 2 0 ^^^ words.getD 7 0 ^^^ words.getD 13 0 ^^^ words.getD 15 0
    stretch n (rotateLeft word 1 :: words)

/-- The words of all rounds. -/
def schedule (block : List UInt8) : List UInt32 :=
  (stretch 64 (wordsBig block).reverse).reverse

/-- The mixing function and the constant of a round. -/
def mix (round : Nat) (b c d : UInt32) : UInt32 × UInt32 :=
  if round < 20 then ((b &&& c) ||| (~~~b &&& d), 0x5A827999)
  else if round < 40 then (b ^^^ c ^^^ d, 0x6ED9EBA1)
  else if round < 60 then ((b &&& c) ||| (b &&& d) ||| (c &&& d), 0x8F1BBCDC)
  else (b ^^^ c ^^^ d, 0xCA62C1D6)

/-- One round. -/
def round (s : Sha1State) (word : UInt32 × Nat) : Sha1State :=
  let (f, k) := mix word.2 s.b s.c s.d
  ⟨rotateLeft s.a 5 + f + s.e + k + word.1, s.a, rotateLeft s.b 30, s.c, s.d⟩

/-- The state after one more block. -/
def absorb (s : Sha1State) (block : List UInt8) : Sha1State :=
  let t := ((schedule block).zipIdx).foldl round s
  ⟨s.a + t.a, s.b + t.b, s.c + t.c, s.d + t.d, s.e + t.e⟩

/-- The state as octets. -/
def octets (s : Sha1State) : List UInt8 :=
  [s.a, s.b, s.c, s.d, s.e].flatMap fun word => octetsBig 4 word.toNat

end Sha1State

/-- The digest of a message. -/
def sha1 (message : List UInt8) : List UInt8 :=
  ((blocksOf (pad (octetsBig 8) message)).foldl Sha1State.absorb .initial).octets

/-- Every digest has twenty octets. -/
theorem length_sha1 (message : List UInt8) : (sha1 message).length = 20 := by
  simp [sha1, Sha1State.octets]

end Roster.Digest
