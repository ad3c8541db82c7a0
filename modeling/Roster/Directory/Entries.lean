import Roster.Entry

/-!
# The entries of a directory

A table of entries in the order of the keys of their names, no key twice. `find?_insert` and
`find?_eraseKey` say how a look-up sees a write.
-/

namespace Roster

/-- Entries in the order of their keys. -/
structure Entries where
  list : List Entry
  /-- The keys increase strictly. -/
  ordered : list.Pairwise fun a b => a.dn.key < b.dn.key
  deriving DecidableEq, Repr

namespace Entries

/-- No entries. -/
def empty : Entries :=
  ⟨[], .nil⟩

/-- The number of entries. -/
def size (entries : Entries) : Nat :=
  entries.list.length

/-- The entry with a key. -/
def find? (entries : Entries) (key : String) : Option Entry :=
  entries.list.find? fun e => e.dn.key == key

/-- The entry at a name. -/
def get? (entries : Entries) (dn : Dn) : Option Entry :=
  entries.find? dn.key

/-- Puts an entry into its place, in exchange for one with the same key. -/
def insertInto (e : Entry) : List Entry → List Entry
  | [] => [e]
  | x :: xs =>
    if x.dn.key < e.dn.key then x :: insertInto e xs
    else if x.dn.key = e.dn.key then e :: xs
    else e :: x :: xs

theorem mem_insertInto {e y : Entry} {xs : List Entry} (h : y ∈ insertInto e xs) :
    y = e ∨ y ∈ xs := by
  induction xs with
  | nil => simpa [insertInto] using h
  | cons x xs ih =>
    rw [insertInto] at h
    split at h
    · rcases List.mem_cons.1 h with rfl | h
      · exact .inr List.mem_cons_self
      · exact (ih h).imp_right (List.mem_cons_of_mem x)
    · split at h
      · exact (List.mem_cons.1 h).imp_right (List.mem_cons_of_mem x)
      · exact List.mem_cons.1 h

theorem pairwise_insertInto (e : Entry) {xs : List Entry}
    (h : xs.Pairwise fun a b => a.dn.key < b.dn.key) :
    (insertInto e xs).Pairwise fun a b => a.dn.key < b.dn.key := by
  induction xs with
  | nil => simp [insertInto]
  | cons x xs ih =>
    rw [List.pairwise_cons] at h
    rw [insertInto]
    split
    · next hlt =>
      refine List.pairwise_cons.2 ⟨fun y hy => ?_, ih h.2⟩
      rcases mem_insertInto hy with rfl | hy
      · exact hlt
      · exact h.1 y hy
    · next hnot =>
      split
      · next heq => exact List.pairwise_cons.2 ⟨fun y hy => heq ▸ h.1 y hy, h.2⟩
      · next hne =>
        have hlt : e.dn.key < x.dn.key :=
          Decidable.byContradiction fun hn =>
            hne (String.le_antisymm (String.not_lt.1 hn) (String.not_lt.1 hnot))
        refine List.pairwise_cons.2 ⟨fun y hy => ?_, List.pairwise_cons.2 h⟩
        rcases List.mem_cons.1 hy with rfl | hy
        · exact hlt
        · exact String.lt_trans hlt (h.1 y hy)

/-- Stores an entry under its name, in exchange for the one that is there. -/
def insert (entries : Entries) (e : Entry) : Entries :=
  ⟨insertInto e entries.list, pairwise_insertInto e entries.ordered⟩

/-- Removes the entry with a key. -/
def eraseKey (entries : Entries) (key : String) : Entries :=
  ⟨entries.list.filter fun e => e.dn.key != key, entries.ordered.filter _⟩

/-- Removes the entry at a name. -/
def erase (entries : Entries) (dn : Dn) : Entries :=
  entries.eraseKey dn.key

/-! ## How a look-up sees a write -/

theorem find?_insertInto (e : Entry) {xs : List Entry}
    (h : xs.Pairwise fun a b => a.dn.key < b.dn.key) (key : String) :
    (insertInto e xs).find? (fun x => x.dn.key == key) =
      if e.dn.key = key then some e else xs.find? fun x => x.dn.key == key := by
  induction xs with
  | nil =>
    by_cases hk : e.dn.key = key <;> simp [insertInto, hk]
  | cons x xs ih =>
    rw [List.pairwise_cons] at h
    rw [insertInto]
    split
    · next hlt =>
      by_cases hx : x.dn.key = key
      · have : e.dn.key ≠ key := fun he => String.lt_irrefl key (by rwa [hx, he] at hlt)
        simp [hx, this]
      · simp [hx, ih h.2]
    · split
      · next heq => by_cases hk : e.dn.key = key <;> simp_all
      · by_cases hk : e.dn.key = key <;> simp [hk]

/-- A stored entry is found under every spelling of its name. -/
theorem find?_insert (entries : Entries) (e : Entry) (key : String) :
    (entries.insert e).find? key = if e.dn.key = key then some e else entries.find? key :=
  find?_insertInto e entries.ordered key

theorem find?_eraseKey (entries : Entries) (key other : String) :
    (entries.eraseKey key).find? other = if key = other then none else entries.find? other := by
  simp only [find?, eraseKey, List.find?_filter]
  split
  · next h =>
    subst h
    simp
  · next h =>
    congr 1
    funext e
    by_cases he : e.dn.key = other
    · simp [he, Ne.symm h]
    · simp [he]

end Entries

end Roster
