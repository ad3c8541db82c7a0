import Roster.Proofs.NameKeys

/-!
# Moving names between bases

The keys of a name's relative names, from the leaf on, are its path (`Dn.path`); a name is within a
base if the base's path ends its own. What moves a name from one base to another splices relative
names by length and never looks at their spellings, while containment compares nothing but paths. So
the account of a move is in paths: the part above the base is exchanged and the part below it stays
(`path_rebase`). Since the part that stays is all that names within one base differ in, a move keeps
their order, and the move back undoes it (`rebase_isomorphism`).
-/

namespace Roster

/-- Of two lists with a common end one ends the other if it does so without that end. -/
theorem suffix_append_right_iff {α : Type} {xs ys : List α} (base : List α) :
    xs ++ base <:+ ys ++ base ↔ xs <:+ ys := by
  constructor
  · rintro ⟨front, h⟩
    rw [← List.append_assoc] at h
    exact ⟨front, List.append_cancel_right h⟩
  · rintro ⟨front, rfl⟩
    exact ⟨front, by rw [List.append_assoc]⟩

namespace Dn

variable {d e f old new : Dn}

/-- The keys of the relative names, the leaf first. -/
def path (d : Dn) : List String :=
  d.rdns.map Rdn.key

@[simp] theorem length_path (d : Dn) : d.path.length = d.length :=
  List.length_map _

/-- Names with one path are spellings of one name. -/
theorem same_of_path (h : d.path = e.path) : d.same e = true :=
  same_iff.2 (congrArg (",".intercalate ·) h)

theorem isWithin_antisymm (hde : d.isWithin e = true) (hed : e.isWithin d = true) :
    d.same e = true := by
  have hlower := isWithin_iff.1 hed
  have hupper := isWithin_iff.1 hde
  exact same_of_path (hlower.eq_of_length (Nat.le_antisymm hlower.length_le hupper.length_le))

/-! ## Moves -/

theorem isSome_rebase (d old new : Dn) : (d.rebase? old new).isSome = d.isWithin old := by
  unfold rebase?
  split
  · next h => rw [h]; rfl
  · next h => rw [Bool.not_eq_true] at h; rw [h]; rfl

theorem exists_rebase (h : d.isWithin old = true) (new : Dn) :
    ∃ moved, d.rebase? old new = some moved :=
  Option.isSome_iff_exists.1 ((isSome_rebase d old new).trans h)

/-- A move keeps what is below the base and exchanges the base. -/
theorem path_rebase {moved : Dn} (h : d.rebase? old new = some moved) :
    ∃ kept, d.path = kept ++ old.path ∧ moved.path = kept ++ new.path := by
  unfold rebase? at h
  split at h
  · next hwithin =>
    cases h
    have hdrop := List.suffix_iff_eq_drop.1 (isWithin_iff.1 hwithin)
    refine ⟨(d.rdns.take (d.length - old.length)).map Rdn.key, ?_, List.map_append⟩
    rw [List.length_map, List.length_map] at hdrop
    rw [path, path, List.map_take, hdrop]
    exact (List.take_append_drop _ _).symm
  · cases h

/-- The moved name is as much longer than the new base as the name was than the old one. -/
theorem length_rebase {moved : Dn} (h : d.rebase? old new = some moved) :
    moved.length + old.length = d.length + new.length := by
  obtain ⟨kept, hd, hmoved⟩ := path_rebase h
  have hbefore := congrArg List.length hd
  have hafter := congrArg List.length hmoved
  rw [List.length_append, length_path, length_path] at hbefore hafter
  omega

theorem isWithin_of_rebase {moved : Dn} (h : d.rebase? old new = some moved) :
    moved.isWithin new = true := by
  obtain ⟨kept, -, hmoved⟩ := path_rebase h
  exact isWithin_iff.2 ⟨kept, hmoved.symm⟩

/-- The move back undoes the move. -/
theorem rebase_rebase {moved : Dn} (h : d.rebase? old new = some moved) :
    ∃ back, moved.rebase? new old = some back ∧ back.same d = true := by
  obtain ⟨back, hback⟩ := exists_rebase (isWithin_of_rebase h) old
  obtain ⟨kept, hd, hmoved⟩ := path_rebase h
  obtain ⟨kept', hmoved', hback'⟩ := path_rebase hback
  have hkept : kept' = kept := List.append_cancel_right (hmoved'.symm.trans hmoved)
  exact ⟨back, hback, same_of_path (by rw [hback', hd, hkept])⟩

/-- A move to where the name is leaves the name, up to its spelling. -/
theorem rebase_self (h : d.isWithin old = true) :
    ∃ back, d.rebase? old old = some back ∧ back.same d = true := by
  obtain ⟨back, hback⟩ := exists_rebase h old
  obtain ⟨kept, hd, hback'⟩ := path_rebase hback
  exact ⟨back, hback, same_of_path (hback'.trans hd.symm)⟩

section Order

variable {d' e' : Dn} (hd : d.rebase? old new = some d') (he : e.rebase? old new = some e')

include hd he

theorem isWithin_rebase : d'.isWithin e' = d.isWithin e := by
  obtain ⟨kept, hd, hd'⟩ := path_rebase hd
  obtain ⟨above, he, he'⟩ := path_rebase he
  rw [Bool.eq_iff_iff, isWithin_iff, isWithin_iff, ← path, ← path, ← path, ← path, hd, hd', he, he',
    suffix_append_right_iff, suffix_append_right_iff]

theorem isChildOf_rebase : d'.isChildOf e' = d.isChildOf e := by
  have hlength : (d'.length = e'.length + 1) ↔ d.length = e.length + 1 := by
    have hdlength := length_rebase hd
    have helength := length_rebase he
    omega
  rw [Bool.eq_iff_iff, isChildOf, isChildOf, Bool.and_eq_true, Bool.and_eq_true, beq_iff_eq,
    beq_iff_eq, hlength, isWithin_rebase hd he]

end Order

/-- **Moving names from one base to another is an isomorphism of subtrees.** Containment orders names,
up to their spelling. A name can be moved if it is within the old base; then it comes to lie within the
new one, as deep below it as before, the move back undoes the move, and a move to where the name is
changes at most its spelling. Of two names that are moved, one is within the other, or is its child,
if it was before. -/
theorem rebase_isomorphism (d e f old new : Dn) :
    d.isWithin d = true ∧
    (d.isWithin e = true → e.isWithin f = true → d.isWithin f = true) ∧
    (d.isWithin e = true → e.isWithin d = true → d.same e = true) ∧
    ((d.rebase? old new).isSome = true ↔ d.isWithin old = true) ∧
    (∀ d', d.rebase? old new = some d' →
      d'.isWithin new = true ∧ d'.length + old.length = d.length + new.length ∧
      ∃ back, d'.rebase? new old = some back ∧ back.same d = true) ∧
    (d.isWithin old = true → ∃ back, d.rebase? old old = some back ∧ back.same d = true) ∧
    (∀ d' e', d.rebase? old new = some d' → e.rebase? old new = some e' →
      d'.isWithin e' = d.isWithin e ∧ d'.isChildOf e' = d.isChildOf e) :=
  ⟨isWithin_refl d, isWithin_trans, isWithin_antisymm, by rw [isSome_rebase],
    fun _ h => ⟨isWithin_of_rebase h, length_rebase h, rebase_rebase h⟩, rebase_self,
    fun _ _ hd he => ⟨isWithin_rebase hd he, isChildOf_rebase hd he⟩⟩

end Dn

namespace Sample

/-- The bases are of different length, and the name spells the old one in its own way. -/
theorem movedName_rebases :
    ∃ d d' old new back, Dn.parse "cn=ann,ou=Staff,dc=X" = .ok d ∧ Dn.parse "ou=staff,dc=x" = .ok old ∧
      Dn.parse "dc=y" = .ok new ∧ d.rebase? old new = some d' ∧ d'.isWithin new = true ∧
      d'.isChildOf new = true ∧ d'.rebase? new old = some back ∧ back.same d = true := by
  have hd : Dn.parse "cn=ann,ou=Staff,dc=X" =
      .ok ⟨[.single "cn" "ann", .single "ou" "Staff", .single "dc" "X"]⟩ := by decide +kernel
  have hold : Dn.parse "ou=staff,dc=x" = .ok ⟨[.single "ou" "staff", .single "dc" "x"]⟩ := by
    decide +kernel
  have hnew : Dn.parse "dc=y" = .ok ⟨[.single "dc" "y"]⟩ := by decide +kernel
  have hlaws := Dn.rebase_isomorphism ⟨[.single "cn" "ann", .single "ou" "Staff", .single "dc" "X"]⟩
    ⟨[.single "ou" "staff", .single "dc" "x"]⟩ ⟨[]⟩ ⟨[.single "ou" "staff", .single "dc" "x"]⟩
    ⟨[.single "dc" "y"]⟩
  obtain ⟨-, -, -, -, hmoved, -, horder⟩ := hlaws
  have hrebase : (⟨[.single "cn" "ann", .single "ou" "Staff", .single "dc" "X"]⟩ : Dn).rebase?
      ⟨[.single "ou" "staff", .single "dc" "x"]⟩ ⟨[.single "dc" "y"]⟩ =
      some ⟨[.single "cn" "ann", .single "dc" "y"]⟩ := by decide +kernel
  obtain ⟨hwithin, -, back, hback, hsame⟩ := hmoved _ hrebase
  refine ⟨_, _, _, _, back, hd, hold, hnew, hrebase, hwithin, ?_, hback, hsame⟩
  exact (horder _ _ hrebase (by decide +kernel)).2.trans (by decide +kernel)

end Sample

end Roster
