/-!
# Text that differs in ASCII case only

Attribute names and stored values are compared ignoring the case of ASCII letters and of no others.
The comparison is equality after `fold`; characters outside ASCII stand for themselves.
-/

namespace Roster.Text

/-- The text with its ASCII capitals made small. -/
def fold (s : String) : String :=
  String.ofList (s.toList.map Char.toLower)

/-- Whether two texts are equal ignoring ASCII case. -/
def same (a b : String) : Bool :=
  fold a == fold b

/-- Whether a list holds a text, ignoring ASCII case. -/
def holds (xs : List String) (x : String) : Bool :=
  xs.any (same x)

@[simp] theorem same_iff {a b : String} : same a b = true ↔ fold a = fold b := by
  simp [same]

theorem same_refl (a : String) : same a a = true := by simp

theorem same_comm (a b : String) : same a b = same b a := by
  rw [Bool.eq_iff_iff, same_iff, same_iff, eq_comm]

theorem holds_iff {xs : List String} {x : String} :
    holds xs x = true ↔ ∃ y ∈ xs, fold y = fold x := by
  simp only [holds, List.any_eq_true, same_iff]
  exact exists_congr fun y => and_congr_right fun _ => eq_comm

end Roster.Text
