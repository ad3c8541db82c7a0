/-!
# Texts in order

Texts are ordered by code points. `sorted` orders a list of them; `sorted_perm` says that it keeps
every text as often as it was there, and `eq_sorted_of_perm` that nothing else is in order and does
so. `least?` is the first text of the order (`least_of_least?`).
-/

namespace Roster.Text

/-- Puts a text in front of the first one that is not below it. -/
def insertSorted (x : String) : List String → List String
  | [] => [x]
  | y :: ys => if y < x then y :: insertSorted x ys else x :: y :: ys

/-- The texts in order, each as often as it was there. -/
def sorted : List String → List String
  | [] => []
  | x :: xs => insertSorted x (sorted xs)

/-- The least of some texts, none for no texts. -/
def least? : List String → Option String
  | [] => none
  | x :: xs => some (xs.foldl (fun a b => if b < a then b else a) x)

theorem insertSorted_perm (x : String) (ys : List String) :
    (insertSorted x ys).Perm (x :: ys) := by
  induction ys with
  | nil => exact .refl _
  | cons y ys ih =>
    rw [insertSorted]
    split
    · exact (ih.cons y).trans (.swap x y ys)
    · exact .refl _

theorem sorted_perm (xs : List String) : (sorted xs).Perm xs := by
  induction xs with
  | nil => exact .refl _
  | cons x xs ih => exact (insertSorted_perm x _).trans (ih.cons x)

theorem pairwise_insertSorted (x : String) {ys : List String} (h : ys.Pairwise (· ≤ ·)) :
    (insertSorted x ys).Pairwise (· ≤ ·) := by
  induction ys with
  | nil => exact List.pairwise_singleton _ x
  | cons y ys ih =>
    rw [List.pairwise_cons] at h
    rw [insertSorted]
    split
    · next hlt =>
      have hle : y ≤ x := String.not_lt.1 fun h => String.lt_irrefl _ (String.lt_trans hlt h)
      refine List.pairwise_cons.2 ⟨fun z hz => ?_, ih h.2⟩
      rcases List.mem_cons.1 ((insertSorted_perm x ys).mem_iff.1 hz) with rfl | hz
      · exact hle
      · exact h.1 z hz
    · next hnot =>
      have hle : x ≤ y := String.not_lt.1 hnot
      refine List.pairwise_cons.2 ⟨fun z hz => ?_, List.pairwise_cons.2 h⟩
      rcases List.mem_cons.1 hz with rfl | hz
      · exact hle
      · exact String.le_trans hle (h.1 z hz)

theorem pairwise_sorted (xs : List String) : (sorted xs).Pairwise (· ≤ ·) := by
  induction xs with
  | nil => exact .nil
  | cons x xs ih => exact pairwise_insertSorted x ih

/-- Texts in order are told apart by how often each of them is there. -/
theorem eq_sorted_of_perm {xs ys : List String} (hordered : xs.Pairwise (· ≤ ·))
    (h : xs.Perm ys) : xs = sorted ys :=
  (h.trans (sorted_perm ys).symm).eq_of_pairwise (fun _ _ _ _ => String.le_antisymm) hordered
    (pairwise_sorted ys)

theorem sorted_congr {xs ys : List String} (h : xs.Perm ys) : sorted xs = sorted ys :=
  eq_sorted_of_perm (pairwise_sorted xs) ((sorted_perm xs).trans h)

/-! ## The least text -/

/-- A text is among some texts, and none of them comes before it. -/
def Least (x : String) (xs : List String) : Prop :=
  x ∈ xs ∧ ∀ y ∈ xs, x ≤ y

theorem Least.congr {x : String} {xs ys : List String} (h : Least x xs)
    (hmem : ∀ y, y ∈ xs ↔ y ∈ ys) : Least x ys :=
  ⟨(hmem x).1 h.1, fun y hy => h.2 y ((hmem y).2 hy)⟩

theorem least_foldl (x : String) (xs : List String) :
    Least (xs.foldl (fun a b => if b < a then b else a) x) (x :: xs) := by
  induction xs generalizing x with
  | nil =>
    refine ⟨List.mem_cons_self, fun y hy => ?_⟩
    rw [List.mem_singleton.1 hy]
    exact String.le_refl x
  | cons y ys ih =>
    have hmin : (if y < x then y else x) ∈ [x, y] ∧ (if y < x then y else x) ≤ x ∧
        (if y < x then y else x) ≤ y := by
      split
      · next hlt =>
        have hle : y ≤ x := String.not_lt.1 fun h => String.lt_irrefl _ (String.lt_trans hlt h)
        exact ⟨by simp, hle, String.le_refl y⟩
      · next hnot => exact ⟨by simp, String.le_refl x, String.not_lt.1 hnot⟩
    obtain ⟨hmem, hbelow⟩ := ih (if y < x then y else x)
    have hfirst := hbelow _ List.mem_cons_self
    rw [List.foldl_cons]
    refine ⟨?_, fun z hz => ?_⟩
    · rcases List.mem_cons.1 hmem with heq | hmem
      · have hpair := hmin.1
        rw [← heq] at hpair
        simp only [List.mem_cons, List.not_mem_nil, or_false] at hpair ⊢
        exact hpair.imp_right .inl
      · exact List.mem_cons_of_mem x (List.mem_cons_of_mem y hmem)
    · rcases List.mem_cons.1 hz with rfl | hz
      · exact String.le_trans hfirst hmin.2.1
      · rcases List.mem_cons.1 hz with rfl | hz
        · exact String.le_trans hfirst hmin.2.2
        · exact hbelow z (List.mem_cons_of_mem _ hz)

/-- What `least?` gives is the least. -/
theorem least_of_least? {x : String} {xs : List String} (h : least? xs = some x) : Least x xs := by
  cases xs with
  | nil => cases h
  | cons y ys =>
    cases h
    exact least_foldl y ys

end Roster.Text
