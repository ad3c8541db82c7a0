import Roster.Proofs.LazyDiffs
import Roster.Proofs.Runs

/-!
# What a diff tells of its history

The items that a diff collects are those of its history: the items asked for since the additions were
last cleared (`additions`), and the items whose end was ever asked for (`removals`). Both views and all
that follows from them can be read off these two (`Tells`), no matter when the diff was asked before:
`after_tells`.
-/

namespace Roster

namespace LazyDiff

variable {α : Type} [BEq α] [Hashable α]

/-! ## Histories -/

namespace Step

/-- Whether a step forgets the items to add. -/
def clears : Step α → Bool
  | .clearAdded => true
  | _ => false

/-- The items that a step asks for. -/
def added : Step α → List α
  | .add x => [x]
  | .addAll xs => xs
  | _ => []

/-- The items whose end a step asks for. -/
def removed : Step α → List α
  | .remove x => [x]
  | .removeAll xs => xs
  | _ => []

end Step

/-- The items asked for since the additions were last cleared. -/
def additions (history : List (Step α)) : List α :=
  (history.rtakeWhile fun step => !step.clears).flatMap Step.added

/-- The items whose end was ever asked for. -/
def removals (history : List (Step α)) : List α :=
  history.flatMap Step.removed

theorem additions_concat (history : List (Step α)) (step : Step α) :
    additions (history ++ [step]) =
      if step.clears then [] else additions history ++ step.added := by
  rw [additions, additions, List.rtakeWhile_concat]
  cases step.clears <;> simp

theorem removals_concat (history : List (Step α)) (step : Step α) :
    removals (history ++ [step]) = removals history ++ step.removed := by
  simp [removals]

/-- Without clearing, all items that were ever asked for count. -/
theorem additions_of_not_clears {history : List (Step α)}
    (h : ∀ step ∈ history, step.clears = false) : additions history = history.flatMap Step.added := by
  rw [additions, List.rtakeWhile_eq_self_iff.2 fun step hstep => by simp [h step hstep]]

theorem added_take (diff : Diff α) (step : Step α) : (diff.take step).added =
    if step.clears then [] else OrderedSet.insertAll diff.added step.added := by
  cases step <;> rfl

theorem removed_take (diff : Diff α) (step : Step α) :
    (diff.take step).removed = OrderedSet.insertAll diff.removed step.removed := by
  cases step <;> rfl

/-- **A diff holds the first occurrence of each item** of its history. -/
theorem after_eq (history : List (Step α)) : Diff.after history =
    ⟨(additions history).eraseDups, (removals history).eraseDups⟩ := by
  induction history using List.reverseRecOn with
  | nil => rfl
  | append_singleton history step ih =>
    have hlast : Diff.after (history ++ [step]) = (Diff.after history).take step := by
      rw [Diff.after, List.foldl_concat, Diff.after]
    have hadded := added_take (Diff.after history) step
    have hremoved := removed_take (Diff.after history) step
    rw [← hlast, ih] at hadded hremoved
    have hinsert (xs ys : List α) :
        OrderedSet.insertAll xs.eraseDups ys = (xs ++ ys).eraseDups := by
      rw [← OrderedSet.insertAll_nil_eq, ← OrderedSet.insertAll_append, OrderedSet.insertAll_nil_eq]
    rw [additions_concat, removals_concat, ← hinsert (removals history), ← hremoved]
    refine congrArg (Diff.mk · _) (hadded.trans ?_)
    split
    · rfl
    · exact hinsert (additions history) step.added

/-! ## What is told -/

/-- A set after removals and additions holds what was added, and what it held and was not removed. -/
theorem contains_applied [EquivBEq α] [LawfulHashable α] (base : Std.HashSet α)
    (removed added : List α) (x : α) :
    (applied base removed added).contains x =
      (base.contains x && !removed.contains x || added.contains x) := by
  have hremove (base : Std.HashSet α) : (removed.foldl (·.erase ·) base).contains x =
      (base.contains x && !removed.contains x) := by
    induction removed generalizing base with
    | nil => simp
    | cons y ys ih =>
      rw [List.foldl_cons, ih, Std.HashSet.contains_erase, List.contains_cons, BEq.comm (a := y)]
      cases x == y <;> simp
  have hadd (base : Std.HashSet α) : (added.foldl (·.insert ·) base).contains x =
      (base.contains x || added.contains x) := by
    induction added generalizing base with
    | nil => simp
    | cons y ys ih =>
      rw [List.foldl_cons, ih, Std.HashSet.contains_insert, List.contains_cons, BEq.comm (a := y)]
      cases x == y <;> simp
  rw [applied, hadd, hremove]

/-- What a diff tells, given its history. -/
structure Tells (history : List (Step α)) (diff : LazyDiff α) : Prop where
  /-- The additions are the items asked for and never removed, in the order in which they came. -/
  added : diff.effectiveAdded.1 =
    (additions history).eraseDups.filter fun x => !(removals history).contains x
  /-- The removals are the items ever removed that are not asked for, in the order of arrival. -/
  removed : diff.effectiveRemoved.1 =
    (removals history).eraseDups.filter fun x => !(additions history).contains x
  /-- No item is told twice. -/
  added_once : diff.effectiveAdded.1.Pairwise fun x y => (x == y) = false
  removed_once : diff.effectiveRemoved.1.Pairwise fun x y => (x == y) = false
  /-- No item is both added and removed. -/
  disjoint (x : α) : ¬ (diff.effectiveAdded.1.contains x = true ∧
    diff.effectiveRemoved.1.contains x = true)
  isEmpty : diff.isEmpty.1 = (diff.effectiveAdded.1.isEmpty && diff.effectiveRemoved.1.isEmpty)
  intoEffective : diff.intoEffective = (diff.effectiveRemoved.1, diff.effectiveAdded.1)
  /-- A set loses the removals and gains the additions. -/
  applyTo (base : Std.HashSet α) (x : α) : (diff.applyTo base).1.contains x =
    (base.contains x && !diff.effectiveRemoved.1.contains x || diff.effectiveAdded.1.contains x)

/-- A diff tells what a plain diff tells. -/
structure TellsAs (plain : Diff α) (diff : LazyDiff α) : Prop where
  added : diff.effectiveAdded.1 = plain.effectiveAdded
  removed : diff.effectiveRemoved.1 = plain.effectiveRemoved
  isEmpty : diff.isEmpty.1 = plain.isEmpty
  applyTo (base : List α) (x : α) :
    (diff.applyTo (.ofList base)).1.contains x = (plain.applyTo base).contains x

/-- Two diffs tell the same items, in whatever order. -/
def TellAlike (diff diff' : LazyDiff α) : Prop :=
  ∀ x, diff.effectiveAdded.1.contains x = diff'.effectiveAdded.1.contains x ∧
    diff.effectiveRemoved.1.contains x = diff'.effectiveRemoved.1.contains x

variable [EquivBEq α] [LawfulHashable α]

theorem effectiveAdded_after (history : List (Step α)) : (after history).effectiveAdded.1 =
    OrderedSet.difference (additions history).eraseDups (removals history) := by
  obtain ⟨hsound, hplain⟩ := sound_after history
  rw [hsound.effectiveAdded.value_eq, hplain, after_eq, Diff.effectiveAdded]
  exact List.filter_congr fun x _ => by rw [OrderedSet.contains_eraseDups]

theorem effectiveRemoved_after (history : List (Step α)) : (after history).effectiveRemoved.1 =
    OrderedSet.difference (removals history).eraseDups (additions history) := by
  obtain ⟨hsound, hplain⟩ := sound_after history
  rw [hsound.effectiveRemoved.value_eq, hplain, after_eq, Diff.effectiveRemoved]
  exact List.filter_congr fun x _ => by rw [OrderedSet.contains_eraseDups]

theorem contains_effectiveAdded_after (history : List (Step α)) (x : α) :
    (after history).effectiveAdded.1.contains x =
      ((additions history).contains x && !(removals history).contains x) := by
  rw [effectiveAdded_after, OrderedSet.contains_difference, OrderedSet.contains_eraseDups]

theorem contains_effectiveRemoved_after (history : List (Step α)) (x : α) :
    (after history).effectiveRemoved.1.contains x =
      ((removals history).contains x && !(additions history).contains x) := by
  rw [effectiveRemoved_after, OrderedSet.contains_difference, OrderedSet.contains_eraseDups]

theorem contains_applyTo_after (history : List (Step α)) (base : Std.HashSet α) (x : α) :
    ((after history).applyTo base).1.contains x =
      (base.contains x && !(after history).effectiveRemoved.1.contains x ||
        (after history).effectiveAdded.1.contains x) := by
  obtain ⟨hsound, -⟩ := sound_after history
  rw [(hsound.applyTo base).value_eq, contains_applied, hsound.effectiveAdded.value_eq,
    hsound.effectiveRemoved.value_eq]

/-- **A new diff tells what its history says**, whenever it was asked before. -/
theorem tells_after (history : List (Step α)) : Tells history (after history) := by
  obtain ⟨hsound, -⟩ := sound_after history
  have honce (xs : List α) : xs.eraseDups.Pairwise fun x y => (x == y) = false := by
    rw [← OrderedSet.insertAll_nil_eq]
    exact OrderedSet.pairwise_insertAll .nil xs
  have hadded := effectiveAdded_after history
  have hremoved := effectiveRemoved_after history
  refine ⟨hadded, hremoved, ?_, ?_, fun x => ?_, ?_, ?_, contains_applyTo_after history⟩
  · rw [hadded]
    exact (honce _).filter _
  · rw [hremoved]
    exact (honce _).filter _
  · rw [contains_effectiveAdded_after, contains_effectiveRemoved_after]
    cases (additions history).contains x <;> simp
  · rw [hsound.isEmpty.value_eq, hsound.effectiveAdded.value_eq, hsound.effectiveRemoved.value_eq]
    rfl
  · rw [hsound.intoEffective, hsound.effectiveAdded.value_eq, hsound.effectiveRemoved.value_eq]

theorem tellsAs_after (history : List (Step α)) : TellsAs (Diff.after history) (after history) := by
  obtain ⟨hsound, hplain⟩ := sound_after history
  have hadded := hsound.effectiveAdded.value_eq
  have hremoved := hsound.effectiveRemoved.value_eq
  have hempty := hsound.isEmpty.value_eq
  rw [hplain] at hadded hremoved hempty
  refine ⟨hadded, hremoved, hempty, fun base x => ?_⟩
  rw [contains_applyTo_after, hadded, hremoved, Std.HashSet.contains_ofList, Diff.applyTo,
    OrderedSet.contains_insertAll, OrderedSet.contains_difference]

/-- Without clearing, the order of the steps does not matter. -/
theorem tellAlike_of_perm {history history' : List (Step α)}
    (hkeeps : ∀ step ∈ history, step.clears = false) (hperm : history.Perm history') :
    TellAlike (after history) (after history') := by
  have hsame {f : Step α → List α} (x : α) :
      (history.flatMap f).contains x = (history'.flatMap f).contains x := by
    rw [Bool.eq_iff_iff, List.contains_iff_exists_mem_beq, List.contains_iff_exists_mem_beq]
    exact exists_congr fun y => and_congr_left fun _ => (hperm.flatMap_right f).mem_iff
  have hadditions (x : α) : (additions history).contains x = (additions history').contains x := by
    rw [additions_of_not_clears hkeeps,
      additions_of_not_clears fun step hstep => hkeeps step (hperm.mem_iff.2 hstep), hsame]
  intro x
  rw [contains_effectiveAdded_after, contains_effectiveAdded_after, contains_effectiveRemoved_after,
    contains_effectiveRemoved_after, hadditions, removals, removals, hsame]
  exact ⟨rfl, rfl⟩

/-- The diff between two collections leads from the one to the other. -/
theorem contains_applyTo_between (current desired : List α) (x : α) :
    ((between current desired).applyTo (.ofList current)).1.contains x = desired.contains x := by
  have hbetween : between current desired = after [.removeAll current, .addAll desired] := rfl
  have hadditions : additions [.removeAll current, .addAll desired] = desired := by
    simp [additions, List.rtakeWhile, Step.clears, Step.added]
  have hremovals : removals [.removeAll current, .addAll desired] = current := by
    simp [removals, Step.removed]
  rw [hbetween, contains_applyTo_after, contains_effectiveAdded_after,
    contains_effectiveRemoved_after, hadditions, hremovals, Std.HashSet.contains_ofList]
  cases current.contains x <;> simp

/-- **A diff is the difference of what it was asked for and what it was asked to end.** After any
changes and questions its views are those of its history and those of the plain diff, and all other
answers agree with them. Unless additions were cleared, the order of the steps only decides the order
of the items. The diff between two collections leads from the one to the other. -/
theorem after_tells (history : List (Step α)) :
    Tells history (after history) ∧ TellsAs (Diff.after history) (after history) ∧
      ((∀ step ∈ history, step.clears = false) → ∀ history', history.Perm history' →
        TellAlike (after history) (after history')) ∧
      ∀ (current desired : List α) (x : α),
        ((between current desired).applyTo (.ofList current)).1.contains x = desired.contains x :=
  ⟨tells_after history, tellsAs_after history, fun hkeeps _ => tellAlike_of_perm hkeeps,
    contains_applyTo_between⟩

end LazyDiff

namespace GroupMembership

/-- Memberships are looked up by their references and the keys of their groups. -/
instance : Hashable GroupMembership :=
  ⟨fun m => mixHash (hash m.reference) (hash m.group.key)⟩

instance : LawfulHashable GroupMembership where
  hash_eq a b h := by
    obtain ⟨hreference, hkey⟩ := beq_iff.1 h
    simp only [hash, hreference, hkey]

end GroupMembership

namespace Sample

/-- The membership of `ann` in a group. -/
def annIn (group : String) : GroupMembership :=
  ⟨"ann", name "cn" group⟩

/-- A diff is asked in between, loses its additions and gets some again, one in another spelling. -/
def annsHistory : List (LazyDiff.Step GroupMembership) :=
  [.addAll [annIn "team", annIn "crew"], .askAdded, .remove (annIn "crew"), .askAdded, .askEmpty,
    .clearAdded, .askRemoved, .addAll [annIn "Staff", annIn "staff"], .add (annIn "CREW"),
    .removeAll [annIn "team", annIn "Team"]]

/-- What such a diff tells. -/
theorem annsHistory_told :
    LazyDiff.Tells annsHistory (.after annsHistory) ∧
      (LazyDiff.after annsHistory).effectiveAdded.1.map GroupMembership.text =
        ["ann in cn=Staff,dc=x"] ∧
      (LazyDiff.after annsHistory).effectiveRemoved.1.map GroupMembership.text =
        ["ann in cn=team,dc=x"] := by
  obtain ⟨htells, -⟩ := LazyDiff.after_tells annsHistory
  refine ⟨htells, ?_, ?_⟩
  · rw [htells.added]
    decide +kernel
  · rw [htells.removed]
    decide +kernel

end Sample

end Roster
