import Roster.Proofs.Spelling

/-!
# What a stored password tells

A password is hashed once. The text that stores it names the algorithm and holds the digest with the
salt behind it, so the salt can be cut off again and a password be checked with it; and from then on
the text is recognised as stored and kept as it is (`hashWithSalt?_checks`). This rests on two facts:
Base64 text is read back whatever the number of octets (`Base64.decode?_encode`), and the name of an
algorithm is found in front of any octets, further braces among them (`isHashed_iff`).
-/

namespace Roster

/-! ## Base64 -/

namespace Text.Base64

/-- No digit is the sign that fills a last group up. -/
theorem digit_ne_fill {n : Nat} (h : n < 64) : digit n ≠ '=' := by
  have hfill : value? '=' = none := by decide
  intro heq
  have hvalue := value?_digit h
  rw [heq, hfill] at hvalue
  cases hvalue

/-- A group without such a sign stands for three octets. -/
theorem decode?_group {a b c d : Char} (hd : d ≠ '=') (rest : List Char) :
    decode? (a :: b :: c :: d :: rest) = (do
      let n := (← value? a) * 262144 + (← value? b) * 4096 + (← value? c) * 64 + (← value? d)
      let octets ← decode? rest
      some ((n / 65536).toUInt8 :: (n / 256 % 256).toUInt8 :: (n % 256).toUInt8 :: octets)) := by
  rw [decode?.eq_4]
  · exact fun _ heq => absurd heq hd
  · exact fun heq => absurd heq hd

/-- A number of 24 bits is the sum of its four digits. -/
theorem sum_digits (n : Nat) :
    n / 262144 * 262144 + n / 4096 % 64 * 4096 + n / 64 % 64 * 64 + n % 64 = n := by
  omega

theorem toUInt8_eq {n : Nat} {octet : UInt8} (h : n = octet.toNat) : n.toUInt8 = octet := by
  rw [h]
  exact UInt8.ofNat_toNat

/-- **What is written for some octets is read as these octets.** -/
theorem decode?_encode (octets : List UInt8) : decode? (encode octets) = some octets := by
  -- The last group may stand for one octet or for two; all others stand for three.
  induction octets using encode.induct with
  | case1 => rfl
  | case2 a =>
    have ha := a.toNat_lt
    rw [encode]
    generalize hn : a.toNat * 16 = n
    have hhigh : value? (digit (n / 64)) = some (n / 64) := value?_digit (by omega)
    have hlow : value? (digit (n % 64)) = some (n % 64) := value?_digit (by omega)
    have hsum : n / 64 * 64 + n % 64 = n := by omega
    have hfirst : (n / 16).toUInt8 = a := toUInt8_eq (by omega)
    rw [decode?]
    simp only [hhigh, hlow, bind, Option.bind, hsum, hfirst]
    rw [if_pos (by omega)]
  | case3 a b =>
    have ha := a.toNat_lt
    have hb := b.toNat_lt
    rw [encode]
    generalize hn : (a.toNat * 256 + b.toNat) * 4 = n
    have hhigh : value? (digit (n / 4096)) = some (n / 4096) := value?_digit (by omega)
    have hmid : value? (digit (n / 64 % 64)) = some (n / 64 % 64) := value?_digit (by omega)
    have hlow : value? (digit (n % 64)) = some (n % 64) := value?_digit (by omega)
    have hsum : n / 4096 * 4096 + n / 64 % 64 * 64 + n % 64 = n := by omega
    have hfirst : (n / 1024).toUInt8 = a := toUInt8_eq (by omega)
    have hsecond : (n / 4 % 256).toUInt8 = b := toUInt8_eq (by omega)
    rw [decode?]
    · simp only [hhigh, hmid, hlow, bind, Option.bind, hsum, hfirst, hsecond]
      rw [if_pos (by omega)]
    · exact digit_ne_fill (by omega)
  | case4 a b c rest ih =>
    have ha := a.toNat_lt
    have hb := b.toNat_lt
    have hc := c.toNat_lt
    rw [encode]
    generalize hn : a.toNat * 65536 + b.toNat * 256 + c.toNat = n
    have hfirst : (n / 65536).toUInt8 = a := toUInt8_eq (by omega)
    have hsecond : (n / 256 % 256).toUInt8 = b := toUInt8_eq (by omega)
    have hthird : (n % 256).toUInt8 = c := toUInt8_eq (by omega)
    rw [decode?_group (digit_ne_fill (by omega)), value?_digit (by omega : n / 262144 < 64),
      value?_digit (by omega : n / 4096 % 64 < 64), value?_digit (by omega : n / 64 % 64 < 64),
      value?_digit (by omega : n % 64 < 64), ih]
    simp only [bind, Option.bind, sum_digits n, hfirst, hsecond, hthird]

end Text.Base64

namespace Password

variable {a : Algorithm} {password salt : List UInt8}

/-! ## The name in front of a password -/

/-- A password starts with the name of an algorithm in braces, in any case. -/
def Carries (a : Algorithm) (password : List UInt8) : Prop :=
  ∃ mark rest, password = 0x7b :: (mark ++ 0x7d :: rest) ∧
    mark.map foldOctet = (Text.octets a.name).map foldOctet

/-- No name of an algorithm has a closing brace, in any case. -/
theorem not_mem_mark {mark : List UInt8}
    (h : mark.map foldOctet = (Text.octets a.name).map foldOctet) : 0x7d ∉ mark := by
  have hname : foldOctet 0x7d ∉ (Text.octets a.name).map foldOctet := by cases a <;> decide
  exact fun hmem => hname (h ▸ List.mem_map_of_mem hmem)

theorem takeWhile_mark {mark : List UInt8} (h : 0x7d ∉ mark) (rest : List UInt8) :
    (mark ++ 0x7d :: rest).takeWhile (· != 0x7d) = mark := by
  have hkept : ∀ b ∈ mark, (b != 0x7d) = true := fun b hb =>
    bne_iff_ne.2 fun heq => h (heq ▸ hb)
  rw [List.takeWhile_append_of_pos hkept]
  simp

/-- The name is found where the first closing brace ends it. -/
theorem isHashed_iff : isHashed a password = true ↔ Carries a password := by
  constructor
  · intro h
    unfold isHashed at h
    split at h
    · next rest =>
      rw [Bool.and_eq_true, List.contains_iff_mem, beq_iff_eq, Text.octets_fold] at h
      obtain ⟨hbrace, hmark⟩ := h
      obtain ⟨mark, behind, rfl, hopen⟩ := List.eq_append_cons_of_mem hbrace
      rw [takeWhile_mark hopen] at hmark
      exact ⟨mark, behind, rfl, hmark⟩
    · cases h
  · rintro ⟨mark, rest, rfl, hmark⟩
    rw [isHashed, takeWhile_mark (not_mem_mark hmark), hmark, Text.octets_fold]
    simp

/-- What is stored as given is text. -/
theorem ofOctets?_eq_some_iff {s : String} :
    Text.ofOctets? password = some s ↔ Text.octets s = password := by
  constructor
  · exact Text.octets_of_ofOctets?
  · rintro rfl
    exact Text.ofOctets?_octets s

theorem ofOctets?_eq_none_iff :
    Text.ofOctets? password = none ↔ ¬ ∃ s, Text.octets s = password := by
  simp only [Option.eq_none_iff_forall_ne_some, ne_eq, ofOctets?_eq_some_iff, not_exists]

/-! ## Storing and checking -/

/-- The text that stores some octets under the name of an algorithm. -/
def labelled (a : Algorithm) (octets : List UInt8) : String :=
  "\x7b" ++ a.name ++ "\x7d" ++ Text.Base64.encodeText octets

theorem carries_labelled (a : Algorithm) (octets : List UInt8) :
    Carries a (Text.octets (labelled a octets)) := by
  refine ⟨Text.octets a.name, Text.octets (Text.Base64.encodeText octets), ?_, rfl⟩
  have hopen : Text.octets "\x7b" = [0x7b] := by decide
  have hclose : Text.octets "\x7d" = [0x7d] := by decide
  rw [labelled, Text.octets_append, Text.octets_append, Text.octets_append, hopen, hclose]
  simp

theorem hashWithSalt?_of_carries (h : a = .plain ∨ Carries a password) (salt : List UInt8) :
    hashWithSalt? a password salt = Text.ofOctets? password := by
  rw [hashWithSalt?, if_pos (h.imp_right isHashed_iff.2)]

theorem hashWithSalt?_of_not_carries (ha : a ≠ .plain) (h : ¬ Carries a password)
    (salt : List UInt8) :
    hashWithSalt? a password salt = some (labelled a (a.digest (password ++ salt) ++ salt)) := by
  rw [hashWithSalt?, if_neg]
  · rfl
  · rintro (heq | hhashed)
    · exact ha heq
    · exact h (isHashed_iff.1 hhashed)

/-- A text stores a password under a salt: behind the name of the algorithm it reads as the digest and
the salt, what stands behind the digest checks the password, and the text is stored as it is again. -/
structure Checks (a : Algorithm) (password salt : List UInt8) (stored : String) : Prop where
  written : ∃ digits decoded, stored = "\x7b" ++ a.name ++ "\x7d" ++ String.ofList digits ∧
    Text.Base64.decode? digits = some decoded ∧ decoded = a.digest (password ++ salt) ++ salt ∧
    decoded.drop a.digestLength = salt ∧
    hashWithSalt? a password (decoded.drop a.digestLength) = some stored
  marked : isHashed a (Text.octets stored) = true
  kept (other : List UInt8) : hashWithSalt? a (Text.octets stored) other = some stored

theorem checks_labelled (ha : a ≠ .plain) (h : ¬ Carries a password) (salt : List UInt8) :
    Checks a password salt (labelled a (a.digest (password ++ salt) ++ salt)) := by
  have hdrop : (a.digest (password ++ salt) ++ salt).drop a.digestLength = salt :=
    List.drop_left' (Algorithm.length_digest ha _)
  have hcarries := carries_labelled a (a.digest (password ++ salt) ++ salt)
  refine ⟨⟨_, _, rfl, Text.Base64.decode?_encode _, rfl, hdrop, ?_⟩, isHashed_iff.2 hcarries,
    fun other => ?_⟩
  · rw [hdrop]
    exact hashWithSalt?_of_not_carries ha h salt
  · rw [hashWithSalt?_of_carries (.inr hcarries), Text.ofOctets?_octets]

/-- **A hashed password can be checked and is not hashed again.** Unless a password is to be stored
as given, it is stored as a text that checks it; if it is to be stored as given, it is stored as the
text that it is, and storing fails if it is none. -/
theorem hashWithSalt?_checks (a : Algorithm) (password salt : List UInt8) :
    (a ≠ .plain → ¬ Carries a password →
      ∃ stored, hashWithSalt? a password salt = some stored ∧ Checks a password salt stored) ∧
    (a = .plain ∨ Carries a password →
      ∀ stored, hashWithSalt? a password salt = some stored ↔ Text.octets stored = password) ∧
    (hashWithSalt? a password salt = none ↔
      (a = .plain ∨ Carries a password) ∧ ¬ ∃ text, Text.octets text = password) := by
  refine ⟨fun ha h => ⟨_, hashWithSalt?_of_not_carries ha h salt, checks_labelled ha h salt⟩,
    fun h stored => ?_, ?_⟩
  · rw [hashWithSalt?_of_carries h, ofOctets?_eq_some_iff]
  · rw [hashWithSalt?_eq_none_iff, ofOctets?_eq_none_iff, isHashed_iff]

end Password

namespace Sample

/-- The octets of a password that ends with a brace. -/
def braced : List UInt8 :=
  Text.octets "\x7bSHA\x7dsecret\x7d"

/-- A password under the name of another algorithm is hashed, with a salt of any length. -/
theorem braced_checks :
    ∃ stored, Password.hashWithSalt? .ssha braced [1, 2, 3] = some stored ∧
      Password.Checks .ssha braced [1, 2, 3] stored := by
  have hcarries : ¬ Password.Carries .ssha braced := by
    rw [← Password.isHashed_iff]
    decide
  exact (Password.hashWithSalt?_checks .ssha braced [1, 2, 3]).1 nofun hcarries

example : Password.hashWithSalt? .sha (Text.octets "secret") [] =
    some "\x7bSHA\x7d5en6G6MezRroT3XKqkdPOmY/BfQ=" := by
  decide +kernel

end Sample

end Roster
