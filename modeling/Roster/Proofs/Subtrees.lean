import Roster.Proofs.Moves

/-!
# The entries below a renamed one

A rename takes the entries below the renamed one along, one after the other in the order of their
keys. Whether the place of each is free is not checked: one that arrives where another entry is
stored, which stays there or has not had its turn yet, takes its place (`Overwrites`). `Partway`
follows the entries through these turns. As long as no entry overwrites another one, each is found
at its new name and all others where they were (`partway_of_spared`); if one does, an entry less is
stored in the end (`size_moveDescendants`).
-/

namespace Roster

/-! ## The number of entries -/

namespace Entries

/-- The names of the entries, in the order of their keys. -/
def names (entries : Entries) : List Dn :=
  entries.list.map Entry.dn

theorem mem_names {entries : Entries} {d : Dn} : d ∈ entries.names ↔ ∃ e ∈ entries.list, e.dn = d :=
  List.mem_map

theorem size_eraseKey {entries : Entries} {key : String} {e : Entry}
    (h : entries.find? key = some e) : (entries.eraseKey key).size + 1 = entries.size := by
  obtain ⟨hmem, rfl⟩ := entries.find?_eq_some_iff.1 h
  have hnodup : entries.list.Nodup := by
    refine entries.ordered.imp ?_
    intro a b hlt heq
    exact String.lt_irrefl _ (heq ▸ hlt)
  have hothers : (entries.eraseKey e.dn.key).list = entries.list.erase e := by
    rw [hnodup.erase_eq_filter]
    refine List.filter_congr fun x hx => ?_
    rw [Bool.eq_iff_iff, bne_iff_ne, bne_iff_ne]
    exact not_congr ⟨entries.eq_of_key_eq hx hmem, fun h => h ▸ rfl⟩
  have hpos := List.length_pos_of_mem hmem
  rw [size, hothers, List.length_erase_of_mem hmem, size]
  omega

theorem length_insertInto (e : Entry) {xs : List Entry}
    (h : xs.Pairwise fun a b => a.dn.key < b.dn.key) :
    (insertInto e xs).length =
      if (xs.find? fun x => x.dn.key == e.dn.key).isSome then xs.length else xs.length + 1 := by
  induction xs with
  | nil => rfl
  | cons x xs ih =>
    rw [List.pairwise_cons] at h
    rw [insertInto, List.find?_cons]
    split
    · next hlt =>
      have hne : (x.dn.key == e.dn.key) = false := beq_eq_false_iff_ne.2 fun heq =>
        String.lt_irrefl _ (heq ▸ hlt)
      rw [hne, List.length_cons, ih h.2]
      dsimp only
      split <;> rfl
    · next hnot =>
      split
      · next heq =>
        rw [beq_iff_eq.2 heq]
        rfl
      · next hne =>
        have hlt : e.dn.key < x.dn.key := Decidable.byContradiction fun hn =>
          hne (String.le_antisymm (String.not_lt.1 hn) (String.not_lt.1 hnot))
        have hnone : (xs.find? fun y => y.dn.key == e.dn.key) = none := by
          refine List.find?_eq_none.2 fun y hy heq => ?_
          exact String.lt_irrefl _ (beq_iff_eq.1 heq ▸ String.lt_trans hlt (h.1 y hy))
        rw [beq_eq_false_iff_ne.2 hne, hnone]
        rfl

/-- Storing an entry adds to the number of entries unless one is there already. -/
theorem size_insert (entries : Entries) (e : Entry) :
    (entries.insert e).size =
      if (entries.find? e.dn.key).isSome then entries.size else entries.size + 1 :=
  length_insertInto e entries.ordered

end Entries

/-! ## Names below a renamed one -/

namespace Dn

/-- The name that an entry gets when the entry at `dn` is renamed and takes those below it along. -/
def follow (d dn renamed : Dn) : Dn :=
  (d.rebase? dn renamed).getD d

variable {d e dn renamed : Dn}

theorem follow_of_not_isWithin (h : ¬ d.isWithin dn = true) : d.follow dn renamed = d := by
  rw [follow, rebase?, if_neg h, Option.getD_none]

/-- A name below another one starts with relative names of its own. -/
theorem IsBelow.exists_front (h : d.IsBelow dn) (renamed : Dn) :
    ∃ front, front ≠ [] ∧ d.rdns.map Rdn.key = front.map Rdn.key ++ dn.rdns.map Rdn.key ∧
      d.follow dn renamed = ⟨front ++ renamed.rdns⟩ := by
  refine ⟨d.rdns.take (d.length - dn.length), ?_, ?_, ?_⟩
  · have hlonger := Directory.length_lt_of_isWithin h.1 fun hkey => h.2 (same_iff.2 hkey)
    intro hnil
    rw [List.take_eq_nil_iff] at hnil
    rcases hnil with hnil | hnil
    · unfold length at hnil
      omega
    · rw [hnil] at hlonger
      cases hlonger
  · have hdrop := List.suffix_iff_eq_drop.1 (Dn.isWithin_iff.1 h.1)
    rw [List.length_map, List.length_map] at hdrop
    rw [List.map_take, hdrop]
    exact (List.take_append_drop _ _).symm
  · rw [follow, rebase?, if_pos h.1, Option.getD_some]

/-- Different entries move to different places. -/
theorem IsBelow.key_eq_of_follow (hrenamed : renamed.rdns ≠ []) (hd : d.IsBelow dn)
    (he : e.IsBelow dn) (h : (d.follow dn renamed).key = (e.follow dn renamed).key) :
    d.key = e.key := by
  obtain ⟨front, hfront, hdkeys, hdfollow⟩ := hd.exists_front renamed
  obtain ⟨front', hfront', hekeys, hefollow⟩ := he.exists_front renamed
  have hsame : ",".intercalate (front.map Rdn.key) = ",".intercalate (front'.map Rdn.key) := by
    rw [hdfollow, hefollow, key_append hfront hrenamed, key_append hfront' hrenamed] at h
    exact (String.append_left_inj _).1 ((String.append_left_inj _).1 h)
  unfold key
  rw [hdkeys, hekeys]
  by_cases hroot : dn.rdns = []
  · rw [hroot, List.map_nil, List.append_nil, List.append_nil, hsame]
  · rw [String.intercalate_append_of_ne_nil, String.intercalate_append_of_ne_nil, hsame] <;>
      simpa

end Dn

namespace Directory

variable {dn renamed : Dn} {table now : Entries} {front back : List String} {key : String}
  {e x : Entry}

/-- The entry as it is after it has moved along. -/
def carried (dn renamed : Dn) (e : Entry) : Entry :=
  ⟨e.dn.follow dn renamed, e.attributes.put "entryDN" [(e.dn.follow dn renamed).text]⟩

theorem moveDescendant_eq (h : now.find? key = some e) :
    moveDescendant dn renamed now key = (now.eraseKey key).insert (carried dn renamed e) := by
  rw [moveDescendant, h]
  rfl

/-- What holds of all entries, and of each that has moved along, holds of all when all have. -/
theorem forall_moveDescendants {Q : Entry → Prop} (hcarried : ∀ e, Q e → Q (carried dn renamed e))
    (h : ∀ e ∈ table.list, Q e) : ∀ e ∈ (moveDescendants dn renamed table).list, Q e := by
  rw [moveDescendants_eq]
  generalize keysBelow dn table = keys
  induction keys generalizing table with
  | nil => exact h
  | cons key keys ih =>
    refine ih ?_
    cases hfind : table.find? key with
    | none =>
      rw [moveDescendant, hfind]
      exact h
    | some e =>
      rw [moveDescendant_eq hfind]
      intro x hx
      rcases Entries.mem_insertInto hx with rfl | hx
      · exact hcarried e (h e (table.find?_eq_some_iff.1 hfind).1)
      · exact h x (List.mem_filter.1 hx).1

/-- Where entries have these names, the one at `d` takes the place of another one when it moves
along with the renamed one: of one that stays where it is, or whose turn has not come yet. -/
def Overwrites (dn renamed : Dn) (names : List Dn) (d : Dn) : Prop :=
  ∃ other ∈ names, other.key = (d.follow dn renamed).key ∧ other.key ≠ d.key ∧
    (other.IsBelow dn → d.key < other.key)

instance (dn renamed : Dn) (names : List Dn) (d : Dn) : Decidable (Overwrites dn renamed names d) :=
  inferInstanceAs (Decidable (∃ other ∈ names, _))

/-! ## Taking turns -/

/-- The table when some of the entries below the renamed one have moved along: they are found at
their new names, and all others where they were. -/
structure Partway (dn renamed : Dn) (table : Entries) (front : List String) (now : Entries) :
    Prop where
  size_eq : now.size = table.size
  moved (e : Entry) : e ∈ table.list → e.dn.key ∈ front →
    now.find? (e.dn.follow dn renamed).key = some (carried dn renamed e)
  others (key : String) :
    (∀ e ∈ table.list, e.dn.key ∈ front → (e.dn.follow dn renamed).key ≠ key) →
    now.find? key = if key ∈ front then none else table.find? key

/-- It is the turn of an entry that is below the renamed one, after some others. -/
structure Turn (dn renamed : Dn) (table : Entries) (front back : List String) (e : Entry) : Prop where
  split : keysBelow dn table = front ++ e.dn.key :: back
  mem : e ∈ table.list
  below : e.dn.IsBelow dn
  /-- None of those before overwrites another entry. -/
  spared (x : Entry) : x ∈ table.list → x.dn.key ∈ front →
    ¬ Overwrites dn renamed table.names x.dn

namespace Turn

theorem exists_of_split (hsplit : keysBelow dn table = front ++ key :: back)
    (hspared : ∀ x ∈ table.list, x.dn.key ∈ front → ¬ Overwrites dn renamed table.names x.dn) :
    ∃ e, e.dn.key = key ∧ Turn dn renamed table front back e := by
  have hmem : key ∈ keysBelow dn table := hsplit ▸ List.mem_append_right _ List.mem_cons_self
  obtain ⟨e, he, hbelow, rfl⟩ := mem_keysBelow.1 hmem
  exact ⟨e, rfl, hsplit, he, hbelow, hspared⟩

variable (h : Turn dn renamed table front back e)

include h

/-- Those before come first in the order of keys, and the others later. -/
theorem lt : (∀ key ∈ front, key < e.dn.key) ∧ ∀ key ∈ back, e.dn.key < key := by
  have hordered := pairwise_keysBelow dn table
  rw [h.split, List.pairwise_append, List.pairwise_cons] at hordered
  exact ⟨fun key hkey => hordered.2.2 key hkey _ List.mem_cons_self, hordered.2.1.1⟩

theorem notMem : e.dn.key ∉ front :=
  fun hmem => String.lt_irrefl _ (h.lt.1 _ hmem)

theorem below_of_mem (hx : x ∈ table.list) (hfront : x.dn.key ∈ front) : x.dn.IsBelow dn := by
  have hmem : x.dn.key ∈ keysBelow dn table := h.split ▸ List.mem_append_left _ hfront
  obtain ⟨y, hy, hbelow, hkey⟩ := mem_keysBelow.1 hmem
  exact table.eq_of_key_eq hy hx hkey ▸ hbelow

/-- None of those before has taken the place of this one. -/
theorem follow_ne (hx : x ∈ table.list) (hfront : x.dn.key ∈ front) :
    (x.dn.follow dn renamed).key ≠ e.dn.key := by
  intro hkey
  have hlt := h.lt.1 _ hfront
  exact h.spared x hx hfront ⟨e.dn, Entries.mem_names.2 ⟨e, h.mem, rfl⟩, hkey.symm,
    fun heq => String.lt_irrefl _ (heq ▸ hlt), fun _ => hlt⟩

/-- None of those before has gone where this one goes. -/
theorem follow_ne_follow (hrenamed : renamed.rdns ≠ []) (hx : x ∈ table.list)
    (hfront : x.dn.key ∈ front) :
    (x.dn.follow dn renamed).key ≠ (e.dn.follow dn renamed).key := by
  intro hkey
  have hsame := (h.below_of_mem hx hfront).key_eq_of_follow hrenamed h.below hkey
  exact h.notMem (hsame ▸ hfront)

/-- What is stored where the entry goes is another entry that it overwrites, or it is the entry
itself or has moved away. -/
theorem overwrites_of_find? (hx : table.find? (e.dn.follow dn renamed).key = some x)
    (hfront : x.dn.key ∉ front) (hne : x.dn.key ≠ e.dn.key) :
    Overwrites dn renamed table.names e.dn := by
  obtain ⟨hmem, hkey⟩ := table.find?_eq_some_iff.1 hx
  refine ⟨x.dn, Entries.mem_names.2 ⟨x, hmem, rfl⟩, hkey, hne, fun hbelow => ?_⟩
  have hkeys : x.dn.key ∈ keysBelow dn table := mem_keysBelow.2 ⟨x, hmem, hbelow, rfl⟩
  rw [h.split, List.mem_append, List.mem_cons] at hkeys
  rcases hkeys with hkeys | hkeys | hkeys
  · exact absurd hkeys hfront
  · exact absurd hkeys hne
  · exact h.lt.2 _ hkeys

variable (hrenamed : renamed.rdns ≠ []) (hnow : Partway dn renamed table front now)

include hnow

theorem find?_now : now.find? e.dn.key = some e := by
  rw [hnow.others _ fun x hx hfront => h.follow_ne hx hfront, if_neg h.notMem]
  exact table.find?_eq_some_iff.2 ⟨h.mem, rfl⟩

include hrenamed

theorem find?_follow : now.find? (e.dn.follow dn renamed).key =
    if (e.dn.follow dn renamed).key ∈ front then none
    else table.find? (e.dn.follow dn renamed).key :=
  hnow.others _ fun _ hx hfront => h.follow_ne_follow hrenamed hx hfront

/-- An entry that overwrites none takes its turn. -/
theorem next (hfree : ¬ Overwrites dn renamed table.names e.dn) :
    Partway dn renamed table (front ++ [e.dn.key])
      (moveDescendant dn renamed now e.dn.key) where
  size_eq := by
    have hnone : (now.eraseKey e.dn.key).find? (carried dn renamed e).dn.key = none := by
      rw [Entries.find?_eraseKey]
      split
      · rfl
      · next hne =>
        refine (h.find?_follow hrenamed hnow).trans ?_
        split
        · rfl
        · next hfront =>
          refine Option.eq_none_iff_forall_ne_some.2 fun x hx => hfree ?_
          have hkey := (table.find?_eq_some_iff.1 hx).2
          exact h.overwrites_of_find? hx (hkey ▸ hfront) fun heq => hne (heq.symm.trans hkey)
    have hremoved := Entries.size_eraseKey (h.find?_now hnow)
    rw [moveDescendant_eq (h.find?_now hnow), Entries.size_insert, hnone, ← hnow.size_eq]
    exact hremoved
  moved x hx hmem := by
    rw [moveDescendant_eq (h.find?_now hnow), Entries.find?_insert]
    rcases List.mem_append.1 hmem with hfront | hself
    · have hapart : (carried dn renamed e).dn.key ≠ (x.dn.follow dn renamed).key :=
        (h.follow_ne_follow hrenamed hx hfront).symm
      rw [if_neg hapart, Entries.find?_eraseKey, if_neg (h.follow_ne hx hfront).symm]
      exact hnow.moved x hx hfront
    · rw [table.eq_of_key_eq hx h.mem (List.mem_singleton.1 hself)]
      exact if_pos rfl
  others key hkey := by
    have hapart : (carried dn renamed e).dn.key ≠ key :=
      hkey e h.mem (List.mem_append_right _ (List.mem_singleton_self _))
    rw [moveDescendant_eq (h.find?_now hnow), Entries.find?_insert, if_neg hapart,
      Entries.find?_eraseKey,
      hnow.others key fun x hx hfront => hkey x hx (List.mem_append_left _ hfront)]
    by_cases hself : e.dn.key = key
    · rw [if_pos hself, if_pos (List.mem_append_right _ (List.mem_singleton.2 hself.symm))]
    · rw [if_neg hself]
      simp only [List.mem_append, List.mem_singleton, Ne.symm hself, or_false]

/-- If the entry overwrites another one, an entry less is stored. -/
theorem size_lt (hclash : Overwrites dn renamed table.names e.dn) :
    (moveDescendant dn renamed now e.dn.key).size < table.size := by
  obtain ⟨other, hother, hkey, hne, hlater⟩ := hclash
  obtain ⟨x, hx, rfl⟩ := Entries.mem_names.1 hother
  have hfront : x.dn.key ∉ front := fun hmem =>
    String.lt_irrefl _ (String.lt_trans (hlater (h.below_of_mem hx hmem)) (h.lt.1 _ hmem))
  have hthere : now.find? (e.dn.follow dn renamed).key = some x := by
    rw [h.find?_follow hrenamed hnow, ← hkey, if_neg hfront]
    exact table.find?_eq_some_iff.2 ⟨hx, rfl⟩
  have hstored : (now.eraseKey e.dn.key).find? (carried dn renamed e).dn.key = some x := by
    rw [Entries.find?_eraseKey, if_neg fun heq => hne (hkey.trans heq.symm)]
    exact hthere
  have hremoved := Entries.size_eraseKey (h.find?_now hnow)
  rw [moveDescendant_eq (h.find?_now hnow), Entries.size_insert, hstored, ← hnow.size_eq, ← hremoved]
  exact Nat.lt_succ_self _

end Turn

/-- As long as no entry overwrites another one, those that have their turn move along. -/
theorem Partway.foldl (hrenamed : renamed.rdns ≠ []) {turns : List String}
    (hnow : Partway dn renamed table front now)
    (hsplit : keysBelow dn table = front ++ turns ++ back)
    (hspared : ∀ x ∈ table.list, x.dn.key ∈ front ++ turns →
      ¬ Overwrites dn renamed table.names x.dn) :
    Partway dn renamed table (front ++ turns) (turns.foldl (moveDescendant dn renamed) now) := by
  induction turns generalizing front now with
  | nil =>
    rw [List.append_nil]
    exact hnow
  | cons key turns ih =>
    have hturns : front ++ key :: turns = front ++ [key] ++ turns := by simp
    have hfirst : keysBelow dn table = front ++ key :: (turns ++ back) := by simp [hsplit]
    obtain ⟨e, rfl, hturn⟩ := Turn.exists_of_split hfirst fun x hx hfront =>
      hspared x hx (List.mem_append_left _ hfront)
    have hnext := hturn.next hrenamed hnow
      (hspared e hturn.mem (List.mem_append_right _ List.mem_cons_self))
    rw [hturns] at hsplit hspared ⊢
    exact ih hnext hsplit hspared

theorem partway_of_spared (hrenamed : renamed.rdns ≠ [])
    (hsplit : keysBelow dn table = front ++ back)
    (hspared : ∀ x ∈ table.list, x.dn.key ∈ front → ¬ Overwrites dn renamed table.names x.dn) :
    Partway dn renamed table front (front.foldl (moveDescendant dn renamed) table) := by
  have hnone : Partway dn renamed table [] table :=
    ⟨rfl, fun _ _ hmem => absurd hmem List.not_mem_nil, fun _ _ => rfl⟩
  exact hnone.foldl hrenamed hsplit hspared

/-! ## All turns -/

/-- No turn adds to the number of entries. -/
theorem size_moveDescendant_le (dn renamed : Dn) (now : Entries) (key : String) :
    (moveDescendant dn renamed now key).size ≤ now.size := by
  cases hfind : now.find? key with
  | none =>
    have hsame : moveDescendant dn renamed now key = now := by simp only [moveDescendant, hfind]
    exact Nat.le_of_eq (congrArg Entries.size hsame)
  | some e =>
    have hremoved := Entries.size_eraseKey hfind
    rw [moveDescendant_eq hfind, Entries.size_insert]
    split <;> omega

theorem size_foldl_moveDescendant_le (dn renamed : Dn) (keys : List String) (now : Entries) :
    (keys.foldl (moveDescendant dn renamed) now).size ≤ now.size := by
  induction keys generalizing now with
  | nil => exact Nat.le_refl _
  | cons key keys ih => exact Nat.le_trans (ih _) (size_moveDescendant_le dn renamed now key)

/-- Some entry that moves along with the renamed one overwrites another one. -/
def Clashes (dn renamed : Dn) (names : List Dn) : Prop :=
  ∃ d ∈ names, d.IsBelow dn ∧ Overwrites dn renamed names d

/-- Without a clash all entries below the renamed one move along. -/
theorem partway_moveDescendants (hrenamed : renamed.rdns ≠ [])
    (hfree : ¬ Clashes dn renamed table.names) :
    Partway dn renamed table (keysBelow dn table) (moveDescendants dn renamed table) := by
  refine partway_of_spared hrenamed (List.append_nil _).symm fun x hx hmem hclash => hfree ?_
  obtain ⟨e, he, hbelow, hkey⟩ := mem_keysBelow.1 hmem
  rw [table.eq_of_key_eq he hx hkey] at hbelow
  exact ⟨x.dn, Entries.mem_names.2 ⟨x, hx, rfl⟩, hbelow, hclash⟩

/-- Without a clash an entry that is not below the renamed one stays where it is. -/
theorem find?_moveDescendants_stays (hrenamed : renamed.rdns ≠ [])
    (hfree : ¬ Clashes dn renamed table.names) (hx : x ∈ table.list) (hbelow : ¬ x.dn.IsBelow dn) :
    (moveDescendants dn renamed table).find? x.dn.key = some x := by
  have hstays : x.dn.key ∉ keysBelow dn table := by
    rw [mem_keysBelow]
    rintro ⟨y, hy, hbelow', hkey⟩
    exact hbelow (table.eq_of_key_eq hy hx hkey ▸ hbelow')
  rw [(partway_moveDescendants hrenamed hfree).others, if_neg hstays]
  · exact table.find?_eq_some_iff.2 ⟨hx, rfl⟩
  · intro y hy hmem hkey
    obtain ⟨z, hz, hbelow', hkey'⟩ := mem_keysBelow.1 hmem
    rw [table.eq_of_key_eq hz hy hkey'] at hbelow'
    refine hfree ⟨y.dn, Entries.mem_names.2 ⟨y, hy, rfl⟩, hbelow', x.dn,
      Entries.mem_names.2 ⟨x, hx, rfl⟩, hkey.symm, fun heq => ?_, fun h => absurd h hbelow⟩
    exact hstays (heq ▸ hmem)

/-- A clash costs an entry. -/
theorem size_moveDescendants_lt (hrenamed : renamed.rdns ≠ [])
    (hclash : Clashes dn renamed table.names) :
    (moveDescendants dn renamed table).size < table.size := by
  classical
  obtain ⟨d, hd, hbelow, hover⟩ := hclash
  obtain ⟨e, he, rfl⟩ := Entries.mem_names.1 hd
  -- The first entry that overwrites another one has its turn while all entries are still stored.
  have hsome : ((keysBelow dn table).find? fun key => decide (∃ x ∈ table.list, x.dn.key = key ∧
      Overwrites dn renamed table.names x.dn)).isSome := by
    rw [List.find?_isSome]
    exact ⟨_, mem_keysBelow.2 ⟨e, he, hbelow, rfl⟩, decide_eq_true ⟨e, he, rfl, hover⟩⟩
  obtain ⟨key, hfirst⟩ := Option.isSome_iff_exists.1 hsome
  obtain ⟨hkey, front, back, hsplit, hbefore⟩ := List.find?_eq_some_iff_append.1 hfirst
  obtain ⟨x, hx, rfl, hover⟩ := of_decide_eq_true hkey
  have hspared : ∀ y ∈ table.list, y.dn.key ∈ front → ¬ Overwrites dn renamed table.names y.dn := by
    intro y hy hfront hover
    have hnot := hbefore _ hfront
    rw [Bool.not_eq_true', decide_eq_false_iff_not] at hnot
    exact hnot ⟨y, hy, rfl, hover⟩
  obtain ⟨y, hyx, hturn⟩ := Turn.exists_of_split hsplit hspared
  obtain rfl := table.eq_of_key_eq hturn.mem hx hyx
  have hless := hturn.size_lt hrenamed (partway_of_spared hrenamed hsplit hspared) hover
  rw [moveDescendants_eq, hsplit, List.foldl_append, List.foldl_cons]
  exact Nat.lt_of_le_of_lt (size_foldl_moveDescendant_le dn renamed back _) hless

/-- **What moving along costs.** The number of entries stays the same exactly if there is no clash.
-/
theorem size_moveDescendants (dn : Dn) (hrenamed : renamed.rdns ≠ []) (table : Entries) :
    (moveDescendants dn renamed table).size ≤ table.size ∧
      ((moveDescendants dn renamed table).size = table.size ↔
        ¬ Clashes dn renamed table.names) := by
  by_cases hclash : Clashes dn renamed table.names
  · have hlt := size_moveDescendants_lt hrenamed hclash
    exact ⟨Nat.le_of_lt hlt, fun heq => absurd heq (Nat.ne_of_lt hlt), fun hnot => absurd hclash hnot⟩
  · have heq := (partway_moveDescendants hrenamed hclash).size_eq
    exact ⟨Nat.le_of_eq heq, fun _ => hclash, fun _ => heq⟩

/-! ## The renamed entry

A new name below the old one makes the renamed entry one of those that move along. It may have several
turns, each at a place to which an earlier turn has taken it, but it is never overwritten. -/

theorem values_carried (dn renamed : Dn) (e : Entry) {name : String}
    (hname : ¬ Text.same "entryDN" name = true) :
    (carried dn renamed e).attributes.values name = e.attributes.values name := by
  rw [carried, Attributes.values_put, if_neg hname]

/-- The entry is at the new name of the renamed one, or where a turn takes an entry that has had it. -/
def Landed (dn renamed : Dn) (front : List String) (x : Entry) : Prop :=
  x.dn.key = renamed.key ∨
    ∃ d : Dn, d.IsBelow dn ∧ d.key ∈ front ∧ x.dn.key = (d.follow dn renamed).key

theorem Landed.append (h : Landed dn renamed front x) (key : String) :
    Landed dn renamed (front ++ [key]) x := by
  rcases h with hnew | ⟨d, hbelow, hmem, hkey⟩
  · exact .inl hnew
  · exact .inr ⟨d, hbelow, List.mem_append_left _ hmem, hkey⟩

/-- Another entry that has its turn does not get to the place of the renamed one. -/
theorem Landed.apart (hrenamed : renamed.rdns ≠ []) (h : Landed dn renamed front x)
    (hfront : e.dn.key ∉ front) (hdn : e.dn.key ≠ dn.key) (hne : e.dn.key ≠ x.dn.key) :
    (e.dn.follow dn renamed).key ≠ x.dn.key := by
  intro hkey
  by_cases hwithin : e.dn.isWithin dn = true
  · have hbelow : e.dn.IsBelow dn := ⟨hwithin, fun hsame => hdn (Dn.same_iff.1 hsame)⟩
    rcases h with hnew | ⟨d, hd, hmem, hplace⟩
    · have hmoved : e.dn.rebase? dn renamed = some (e.dn.follow dn renamed) := by
        rw [Dn.follow, Dn.rebase?, if_pos hwithin, Option.getD_some]
      exact key_rebase_ne hrenamed hmoved hdn (hkey.trans hnew)
    · exact hfront (hbelow.key_eq_of_follow hrenamed hd (hkey.trans hplace) ▸ hmem)
  · rw [Dn.follow_of_not_isWithin hwithin] at hkey
    exact hne hkey

/-- A turn leaves the renamed entry where it is or takes it along. -/
theorem Landed.next (hrenamed : renamed.rdns ≠ []) (hx : x ∈ now.list)
    (h : Landed dn renamed front x) (hfront : key ∉ front) (hdn : key ≠ dn.key) :
    ∃ y ∈ (moveDescendant dn renamed now key).list, (y = x ∨ y = carried dn renamed x) ∧
      Landed dn renamed (front ++ [key]) y := by
  have hfound := now.find?_eq_some_iff.2 ⟨hx, rfl⟩
  cases hfind : now.find? key with
  | none =>
    rw [moveDescendant, hfind]
    exact ⟨x, hx, .inl rfl, h.append key⟩
  | some e =>
    obtain ⟨he, rfl⟩ := now.find?_eq_some_iff.1 hfind
    rw [moveDescendant_eq hfind]
    by_cases hown : e.dn.key = x.dn.key
    · obtain rfl := now.eq_of_key_eq he hx hown
      refine ⟨carried dn renamed e, ?_, .inr rfl, ?_⟩
      · have hstored := (Entries.find?_insert (now.eraseKey e.dn.key) (carried dn renamed e) _).trans
          (if_pos rfl)
        exact ((Entries.find?_eq_some_iff _).1 hstored).1
      · by_cases hwithin : e.dn.isWithin dn = true
        · exact .inr ⟨e.dn, ⟨hwithin, fun hsame => hdn (Dn.same_iff.1 hsame)⟩,
            List.mem_append_right _ (List.mem_singleton_self _), rfl⟩
        · have hstays : (carried dn renamed e).dn.key = e.dn.key :=
            congrArg Dn.key (Dn.follow_of_not_isWithin hwithin)
          unfold Landed
          rw [hstays]
          exact h.append _
    · refine ⟨x, ?_, .inl rfl, h.append _⟩
      have happart : (carried dn renamed e).dn.key ≠ x.dn.key := h.apart hrenamed hfront hdn hown
      have hkept : ((now.eraseKey e.dn.key).insert (carried dn renamed e)).find? x.dn.key =
          some x := by
        rw [Entries.find?_insert, if_neg happart, Entries.find?_eraseKey, if_neg hown]
        exact hfound
      exact ((Entries.find?_eq_some_iff _).1 hkept).1

/-- The renamed entry is still there after any number of turns. -/
theorem Landed.foldl (hrenamed : renamed.rdns ≠ []) (hsplit : keysBelow dn table = front ++ back)
    (hx : x ∈ now.list) (h : Landed dn renamed front x) :
    ∃ y ∈ (back.foldl (moveDescendant dn renamed) now).list, ∀ name,
      ¬ Text.same "entryDN" name = true → y.attributes.values name = x.attributes.values name := by
  induction back generalizing front now x with
  | nil => exact ⟨x, hx, fun _ _ => rfl⟩
  | cons key back ih =>
    have hmem : key ∈ keysBelow dn table := hsplit ▸ List.mem_append_right _ List.mem_cons_self
    obtain ⟨d, -, hbelow, rfl⟩ := mem_keysBelow.1 hmem
    have hordered := pairwise_keysBelow dn table
    rw [hsplit, List.pairwise_append] at hordered
    have hfront : d.dn.key ∉ front := fun hmem =>
      String.lt_irrefl _ (hordered.2.2 _ hmem _ List.mem_cons_self)
    obtain ⟨y, hy, hyx, hnext⟩ := h.next hrenamed hx hfront
      fun hkey => hbelow.2 (Dn.same_iff.2 hkey)
    obtain ⟨z, hz, hvalues⟩ := ih (by simp [hsplit]) hy hnext
    refine ⟨z, hz, fun name hname => (hvalues name hname).trans ?_⟩
    rcases hyx with rfl | rfl
    · rfl
    · exact values_carried dn renamed x hname

theorem exists_renamed_moveDescendants (dn : Dn) (hrenamed : renamed.rdns ≠ [])
    (hfind : table.find? renamed.key = some e) :
    ∃ x ∈ (moveDescendants dn renamed table).list, ∀ name, ¬ Text.same "entryDN" name = true →
      x.attributes.values name = e.attributes.values name := by
  obtain ⟨he, hkey⟩ := table.find?_eq_some_iff.1 hfind
  rw [moveDescendants_eq]
  have hlanded : Landed dn renamed [] e := .inl hkey
  exact hlanded.foldl hrenamed rfl he

/-! ## Renames -/

/-- The names of the entries once one of them has been renamed, before those below it move along. -/
def retitled (dn renamed : Dn) (names : List Dn) : List Dn :=
  renamed :: names.filter fun d => !d.same dn

/-- An entry that moves along with a renamed one overwrites another one. -/
def Collides (dn renamed : Dn) (names : List Dn) : Prop :=
  Clashes dn renamed (retitled dn renamed names)

instance (dn renamed : Dn) (names : List Dn) : Decidable (Collides dn renamed names) :=
  inferInstanceAs (Decidable (∃ d ∈ retitled dn renamed names, _))

theorem Clashes.congr {names names' : List Dn} (h : ∀ d, d ∈ names ↔ d ∈ names') :
    Clashes dn renamed names ↔ Clashes dn renamed names' := by
  simp only [Clashes, Overwrites, h]

/-- An entry stored in exchange for the one at a name. -/
def exchange (entries : Entries) (dn : Dn) (e : Entry) : Entries :=
  (entries.erase dn).insert e

variable {entries : Entries}

theorem find?_exchange (entries : Entries) (dn : Dn) (e : Entry) (key : String) :
    (exchange entries dn e).find? key =
      if e.dn.key = key then some e else if dn.key = key then none else entries.find? key := by
  rw [exchange, Entries.find?_insert, Entries.erase, Entries.find?_eraseKey]

variable (hfree : e.dn.same dn = true ∨ entries.get? e.dn = none)

include hfree

theorem mem_exchange : x ∈ (exchange entries dn e).list ↔
    x = e ∨ x ∈ entries.list ∧ x.dn.key ≠ dn.key := by
  have hfound : x ∈ (exchange entries dn e).list ↔
      (exchange entries dn e).find? x.dn.key = some x := by
    rw [Entries.find?_eq_some_iff]
    exact (and_iff_left rfl).symm
  rw [hfound, find?_exchange]
  by_cases hkey : e.dn.key = x.dn.key
  · rw [if_pos hkey, Option.some.injEq, eq_comm]
    refine (or_iff_left ?_).symm
    rintro ⟨hx, hother⟩
    rcases hfree with hsame | hfree
    · exact hother (hkey.symm.trans (Dn.same_iff.1 hsame))
    · cases hfree.symm.trans (entries.get?_eq_some_iff.2 ⟨hx, hkey.symm⟩)
  · have hne : ¬ x = e := fun heq => hkey (heq ▸ rfl)
    rw [if_neg hkey, or_iff_right hne]
    by_cases hown : dn.key = x.dn.key
    · simp [hown]
    · rw [if_neg hown, Entries.find?_eq_some_iff]
      simp [Ne.symm hown]

theorem mem_names_exchange {d : Dn} :
    d ∈ (exchange entries dn e).names ↔ d ∈ retitled dn e.dn entries.names := by
  simp only [Entries.mem_names, mem_exchange hfree, retitled, List.mem_cons, List.mem_filter,
    Bool.not_eq_true', ← Bool.not_eq_true, Dn.same_iff]
  constructor
  · rintro ⟨x, rfl | ⟨hx, hother⟩, rfl⟩
    · exact .inl rfl
    · exact .inr ⟨⟨x, hx, rfl⟩, hother⟩
  · rintro (rfl | ⟨⟨x, hx, rfl⟩, hother⟩)
    · exact ⟨e, .inl rfl, rfl⟩
    · exact ⟨x, .inr ⟨hx, hother⟩, rfl⟩

theorem clashes_exchange :
    Clashes dn renamed (exchange entries dn e).names ↔
      Clashes dn renamed (retitled dn e.dn entries.names) :=
  Clashes.congr fun _ => mem_names_exchange hfree

theorem size_exchange {old : Entry} (hold : entries.get? dn = some old) :
    (exchange entries dn e).size = entries.size := by
  have hnone : (entries.erase dn).find? e.dn.key = none := by
    rw [Entries.erase, Entries.find?_eraseKey]
    split
    · rfl
    · next hother =>
      exact hfree.resolve_left fun hsame => hother (Dn.same_iff.1 hsame).symm
  rw [exchange, Entries.size_insert, hnone]
  exact Entries.size_eraseKey hold

omit hfree

variable {dir after : Directory} {supply : Supply} {landed : Dn} {rdn : Rdn} {superior : Option Dn}

theorem run_rename_exchange (h : dir.run (rename supply dn rdn superior) = (.ok landed, after)) :
    landed.rdns ≠ [] ∧ ∃ old e, dir.entries.get? dn = some old ∧ e.dn = landed ∧
      (e.dn.same dn = true ∨ dir.entries.get? e.dn = none) ∧
      after.entries = moveDescendants dn landed (exchange dir.entries dn e) := by
  obtain ⟨rfl, -, old, hold, hfree, htable⟩ := run_rename_table h
  exact ⟨List.cons_ne_nil _ _, old, _, hold, rfl, hfree, htable⟩

/-- **What a rename costs.** The number of entries stays the same exactly if no entry that moves
along overwrites another one. -/
theorem size_rename (h : dir.run (rename supply dn rdn superior) = (.ok landed, after)) :
    after.entries.size ≤ dir.entries.size ∧
      (after.entries.size = dir.entries.size ↔ ¬ Collides dn landed dir.entries.names) := by
  obtain ⟨hlanded, old, e, hold, rfl, hfree, htable⟩ := run_rename_exchange h
  have hmoved := size_moveDescendants dn hlanded (exchange dir.entries dn e)
  rw [size_exchange hfree hold, clashes_exchange hfree] at hmoved
  rw [htable]
  exact hmoved

/-- **Where a rename leaves other entries**, if none overwrites another one: those below the renamed
one have moved along, and all others are where they were. -/
theorem get?_rename (h : dir.run (rename supply dn rdn superior) = (.ok landed, after))
    (hcollides : ¬ Collides dn landed dir.entries.names) (hx : x ∈ dir.entries.list)
    (hother : x.dn.key ≠ dn.key) :
    after.entries.get? (x.dn.follow dn landed) =
      some (if x.dn.IsBelow dn then carried dn landed x else x) := by
  obtain ⟨hlanded, old, e, -, rfl, hfree, htable⟩ := run_rename_exchange h
  have hcalm : ¬ Clashes dn e.dn (exchange dir.entries dn e).names :=
    fun hclash => hcollides ((clashes_exchange hfree).1 hclash)
  have hmem := (mem_exchange hfree).2 (.inr ⟨hx, hother⟩)
  rw [htable]
  split
  · next hbelow =>
    exact (partway_moveDescendants hlanded hcalm).moved x hmem
      (mem_keysBelow.2 ⟨x, hmem, hbelow, rfl⟩)
  · next hbelow =>
    have houtside : ¬ x.dn.isWithin dn = true := fun hwithin =>
      hbelow ⟨hwithin, fun hsame => hother (Dn.same_iff.1 hsame)⟩
    rw [Dn.follow_of_not_isWithin houtside]
    exact find?_moveDescendants_stays hlanded hcalm hmem hbelow

end Directory

end Roster
