import Roster.Digest.Block

/-!
# MD5

The digest of 128 bits. Sixty-four rounds, each with its own constant, turn and choice of word, mix
a block into four words of state. `length_md5` gives the length of the result.
-/

namespace Roster.Digest

/-- The four words of state. -/
structure Md5State where
  a : UInt32
  b : UInt32
  c : UInt32
  d : UInt32

namespace Md5State

/-- The state before the first block. -/
def initial : Md5State :=
  ⟨0x67452301, 0xEFCDAB89, 0x98BADCFE, 0x10325476⟩

/-- The constants of the rounds: the leading 32 bits of the fractions of sines. -/
def constants : List UInt32 :=
  [0xD76AA478, 0xE8C7B756, 0x242070DB, 0xC1BDCEEE, 0xF57C0FAF, 0x4787C62A,
   0xA8304613, 0xFD469501, 0x698098D8, 0x8B44F7AF, 0xFFFF5BB1, 0x895CD7BE,
   0x6B901122, 0xFD987193, 0xA679438E, 0x49B40821, 0xF61E2562, 0xC040B340,
   0x265E5A51, 0xE9B6C7AA, 0xD62F105D, 0x02441453, 0xD8A1E681, 0xE7D3FBC8,
   0x21E1CDE6, 0xC33707D6, 0xF4D50D87, 0x455A14ED, 0xA9E3E905, 0xFCEFA3F8,
   0x676F02D9, 0x8D2A4C8A, 0xFFFA3942, 0x8771F681, 0x6D9D6122, 0xFDE5380C,
   0xA4BEEA44, 0x4BDECFA9, 0xF6BB4B60, 0xBEBFBC70, 0x289B7EC6, 0xEAA127FA,
   0xD4EF3085, 0x04881D05, 0xD9D4D039, 0xE6DB99E5, 0x1FA27CF8, 0xC4AC5665,
   0xF4292244, 0x432AFF97, 0xAB9423A7, 0xFC93A039, 0x655B59C3, 0x8F0CCC92,
   0xFFEFF47D, 0x85845DD1, 0x6FA87E4F, 0xFE2CE6E0, 0xA3014314, 0x4E0811A1,
   0xF7537E82, 0xBD3AF235, 0x2AD7D2BB, 0xEB86D391]

/-- How far a round turns its sum. -/
def turn (round : Nat) : UInt32 :=
  let turns : List UInt32 :=
    if round < 16 then [7, 12, 17, 22]
    else if round < 32 then [5, 9, 14, 20]
    else if round < 48 then [4, 11, 16, 23]
    else [6, 10, 15, 21]
  turns.getD (round % 4) 0

/-- The mixing function of a round and the index of the word that it takes. -/
def mix (round : Nat) (b c d : UInt32) : UInt32 × Nat :=
  if round < 16 then ((b &&& c) ||| (~~~b &&& d), round)
  else if round < 32 then ((d &&& b) ||| (~~~d &&& c), (5 * round + 1) % 16)
  else if round < 48 then (b ^^^ c ^^^ d, (3 * round + 5) % 16)
  else (c ^^^ (b ||| ~~~d), 7 * round % 16)

/-- One round over the words of a block. -/
def round (words : List UInt32) (s : Md5State) (constant : UInt32 × Nat) : Md5State :=
  let (f, index) := mix constant.2 s.b s.c s.d
  let sum := f + s.a + constant.1 + words.getD index 0
  ⟨s.d, s.b + rotateLeft sum (turn constant.2), s.b, s.c⟩

/-- The state after one more block. -/
def absorb (s : Md5State) (block : List UInt8) : Md5State :=
  let t := constants.zipIdx.foldl (round (wordsLittle block)) s
  ⟨s.a + t.a, s.b + t.b, s.c + t.c, s.d + t.d⟩

/-- The state as octets. -/
def octets (s : Md5State) : List UInt8 :=
  [s.a, s.b, s.c, s.d].flatMap fun word => octetsLittle 4 word.toNat

end Md5State

/-- The digest of a message. -/
def md5 (message : List UInt8) : List UInt8 :=
  ((blocksOf (pad (octetsLittle 8) message)).foldl Md5State.absorb .initial).octets

/-- Every digest has sixteen octets. -/
theorem length_md5 (message : List UInt8) : (md5 message).length = 16 := by
  simp [md5, Md5State.octets]

end Roster.Digest
