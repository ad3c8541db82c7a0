/-!
# Blocks of a message

What the digests have in common: a message is filled up to whole blocks of 64 octets, with its
length at the end (`pad`), and each block is read as sixteen words of 32 bits. The two byte orders
differ in `wordsBig` and `wordsLittle`.
-/

namespace Roster.Digest

/-- The `n` lowest octets of a number, the lowest first. -/
def octetsLittle : Nat → Nat → List UInt8
  | 0, _ => []
  | n + 1, value => (value % 256).toUInt8 :: octetsLittle n (value / 256)

/-- The `n` lowest octets of a number, the highest first. -/
def octetsBig (n value : Nat) : List UInt8 :=
  (octetsLittle n value).reverse

/-- The message with a one bit, the zero bits that fill its last block up, and its length in bits
as written by `lengthOctets`. -/
def pad (lengthOctets : Nat → List UInt8) (message : List UInt8) : List UInt8 :=
  let zeros := (119 - message.length % 64) % 64
  message ++ 0x80 :: List.replicate zeros 0 ++ lengthOctets (message.length * 8)

/-- The first `n` blocks of 64 octets. -/
def blocks : Nat → List UInt8 → List (List UInt8)
  | 0, _ => []
  | n + 1, octets => octets.take 64 :: blocks n (octets.drop 64)

/-- All blocks of a padded message. -/
def blocksOf (octets : List UInt8) : List (List UInt8) :=
  blocks (octets.length / 64) octets

/-- A word from its octets, the highest first. -/
def wordBig (a b c d : UInt8) : UInt32 :=
  a.toUInt32 <<< 24 ||| b.toUInt32 <<< 16 ||| c.toUInt32 <<< 8 ||| d.toUInt32

/-- The words of a block whose octets come highest first. -/
def wordsBig : List UInt8 → List UInt32
  | a :: b :: c :: d :: rest => wordBig a b c d :: wordsBig rest
  | _ => []

/-- The words of a block whose octets come lowest first. -/
def wordsLittle : List UInt8 → List UInt32
  | a :: b :: c :: d :: rest => wordBig d c b a :: wordsLittle rest
  | _ => []

/-- A word with its bits turned to the left. -/
def rotateLeft (w : UInt32) (n : UInt32) : UInt32 :=
  w <<< n ||| w >>> (32 - n)

@[simp] theorem length_octetsLittle (n value : Nat) : (octetsLittle n value).length = n := by
  induction n generalizing value with
  | zero => rfl
  | succ n ih => simp [octetsLittle, ih]

@[simp] theorem length_octetsBig (n value : Nat) : (octetsBig n value).length = n := by
  simp [octetsBig]

/-- A padded message consists of whole blocks. -/
theorem length_pad_mod {lengthOctets : Nat → List UInt8} (h : ∀ n, (lengthOctets n).length = 8)
    (message : List UInt8) : (pad lengthOctets message).length % 64 = 0 := by
  simp only [pad, List.length_append, List.length_cons, List.length_replicate, h]
  omega

end Roster.Digest
