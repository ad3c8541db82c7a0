/-!
# Secrets

The octets of a password in clear text. A secret describes itself without telling them, and a random
one is made of visible ASCII characters.
-/

namespace Roster

/-- A password in clear text. -/
structure Secret where
  octets : List UInt8
  deriving DecidableEq

namespace Secret

/-- What may be shown of a secret: nothing. -/
def describe (_ : Secret) : String :=
  "GuardedString(***)"

/-- A secret of the given length, its characters chosen by throws of a die. -/
def random (die : Nat → Nat) (length : Nat) : Secret :=
  ⟨(List.range length).map fun i => (33 + die i % 94).toUInt8⟩

@[simp] theorem length_random (die : Nat → Nat) (length : Nat) :
    (random die length).octets.length = length := by
  simp [random]

/-- All characters of a random secret are visible ones. -/
theorem visible_of_mem_random {die : Nat → Nat} {length : Nat} {b : UInt8}
    (h : b ∈ (random die length).octets) : 33 ≤ b.toNat ∧ b.toNat ≤ 126 := by
  simp only [random, List.mem_map] at h
  obtain ⟨i, _, rfl⟩ := h
  simp only [Nat.toUInt8, UInt8.toNat_ofNat']
  omega

end Secret

end Roster
