import Roster.Proofs.Requests
import Roster.Proofs.Values

/-!
# What a rename does to an entry

The attributes of a renamed entry lose the values of the old relative name and gain those of the new
one (`values_dropRdn`, `values_extendByRdn`). The entry is found under its new name
(`find?_moveDescendants`), unless the new name lies below the old one: then it moves on with the entries
below it, and nothing is left at the name that the rename returns.
-/

namespace Roster

/-! ## The entries of a directory as a table -/

namespace Entries

theorem find?_eq_some_iff (entries : Entries) {key : String} {e : Entry} :
    entries.find? key = some e ↔ e ∈ entries.list ∧ e.dn.key = key := by
  constructor
  · intro h
    have hkey := List.find?_some h
    exact ⟨List.mem_of_find?_eq_some h, beq_iff_eq.1 hkey⟩
  · rintro ⟨hmem, rfl⟩
    obtain ⟨list, hordered⟩ := entries
    unfold find?
    induction list with
    | nil => cases hmem
    | cons x xs ih =>
      rw [List.pairwise_cons] at hordered
      rcases List.mem_cons.1 hmem with rfl | hmem
      · exact List.find?_cons_of_pos (beq_self_eq_true _)
      · have hne : ¬ (x.dn.key == e.dn.key) = true := fun heq =>
          String.lt_irrefl _ (beq_iff_eq.1 heq ▸ hordered.1 e hmem)
        refine (List.find?_cons_of_neg ?_).trans (ih hordered.2 hmem)
        exact hne

theorem get?_eq_some_iff (entries : Entries) {dn : Dn} {e : Entry} :
    entries.get? dn = some e ↔ e ∈ entries.list ∧ e.dn.key = dn.key :=
  entries.find?_eq_some_iff

/-- There is one entry for a key. -/
theorem eq_of_key_eq (entries : Entries) {e x : Entry} (he : e ∈ entries.list)
    (hx : x ∈ entries.list) (hkey : e.dn.key = x.dn.key) : e = x :=
  Option.some.inj ((entries.find?_eq_some_iff.2 ⟨he, hkey⟩).symm.trans
    (entries.find?_eq_some_iff.2 ⟨hx, rfl⟩))

end Entries

/-! ## Names below another one -/

namespace Dn

/-- A name lies below another one, and is not a spelling of it. -/
def IsBelow (d base : Dn) : Prop :=
  d.isWithin base = true ∧ ¬ d.same base = true

instance (d base : Dn) : Decidable (d.IsBelow base) :=
  inferInstanceAs (Decidable (_ ∧ _))

theorem key_append {above : Dn} {front : List Rdn} (hfront : front ≠ []) (habove : above.rdns ≠ []) :
    (⟨front ++ above.rdns⟩ : Dn).key =
      ",".intercalate (front.map Rdn.key) ++ "," ++ above.key := by
  unfold key
  rw [List.map_append, String.intercalate_append_of_ne_nil]
  · simpa using hfront
  · simpa using habove

end Dn

/-! ## Values of relative names -/

namespace Attributes

theorem values_dropValue (attrs : Attributes) (ava : Ava) (name : String) :
    (attrs.dropValue ava).values name =
      if Text.same ava.type name then (attrs.values name).filter fun v => !Text.same v ava.value
      else attrs.values name := by
  unfold dropValue
  split
  · next hnone =>
    split
    · next hname =>
      have hempty : attrs.values name = [] := by
        rw [← attrs.values_congr hname, values, hnone]
        rfl
      rw [hempty, List.filter_nil]
    · rfl
  · next values hsome =>
    have hvalues : attrs.values ava.type = values := by
      rw [Attributes.values, hsome]
      rfl
    dsimp only
    split
    · next hempty =>
      rw [values_erase]
      split
      · next hname => rw [← attrs.values_congr hname, hvalues, List.isEmpty_iff.1 hempty]
      · rfl
    · rw [values_put]
      split
      · next hname => rw [← attrs.values_congr hname, hvalues]
      · rfl

/-- What an entry keeps of an attribute when it loses a relative name. -/
theorem values_dropRdn (attrs : Attributes) (rdn : Rdn) (name : String) :
    (attrs.dropRdn rdn).values name =
      (attrs.values name).filter fun v => !Text.holds (rdn.valuesOf name) v := by
  unfold dropRdn Rdn.valuesOf
  induction rdn.avas generalizing attrs with
  | nil =>
    refine (List.filter_eq_self.2 fun v _ => ?_).symm
    rfl
  | cons ava avas ih =>
    rw [List.foldl_cons, ih, values_dropValue, List.filter_cons]
    split
    · rw [List.filter_filter]
      refine List.filter_congr fun v _ => ?_
      simp only [List.map_cons, Text.holds, List.any_cons, Bool.not_or]
      rw [Bool.and_comm]
    · rfl

theorem values_extendByRdn (attrs : Attributes) (rdn : Rdn) (name : String) :
    (attrs.extendByRdn rdn).values name =
      OrderedSet.insertAll (attrs.values name) (rdn.valuesOf name) := by
  unfold extendByRdn Rdn.valuesOf
  induction rdn.avas generalizing attrs with
  | nil => rfl
  | cons ava avas ih =>
    rw [List.foldl_cons, ih, values_extend, List.filter_cons]
    split
    · next hname => rw [attrs.values_congr hname, List.map_cons, OrderedSet.insertAll_cons,
        OrderedSet.insertAll_cons, OrderedSet.insertAll_nil]
    · rfl

end Attributes

namespace Directory

/-- What a renamed entry has of an attribute that the server does not maintain. -/
theorem values_renamedAttributes (supply : Supply) (tick : Nat) (dn renamed : Dn) (rdn : Rdn)
    (attrs : Attributes) {name : String} (hdn : ¬ Text.same "entryDN" name = true)
    (htime : ¬ Text.same "modifyTimestamp" name = true) :
    (renamedAttributes supply tick dn renamed rdn attrs).values name =
      OrderedSet.insertAll
        ((attrs.values name).filter fun v => !Text.holds (dn.leafValues name) v)
        (rdn.valuesOf name) := by
  unfold renamedAttributes
  rw [Attributes.values_put, if_neg htime, Attributes.values_put, if_neg hdn,
    Attributes.values_extendByRdn]
  congr 1
  unfold Dn.leafValues
  cases dn.leaf? with
  | none => exact (List.filter_eq_self.2 fun v _ => rfl).symm
  | some old => exact attrs.values_dropRdn old name

/-- A renamed entry has values of an attribute if something is left of the old ones or the new
relative name has some. -/
theorem values_renamedAttributes_ne_nil (supply : Supply) (tick : Nat) (dn renamed : Dn)
    (rdn : Rdn) (attrs : Attributes) {name : String}
    (h : rdn.valuesOf name ≠ [] ∨
      ∃ v ∈ attrs.values name, Text.holds (dn.leafValues name) v = false) :
    (renamedAttributes supply tick dn renamed rdn attrs).values name ≠ [] := by
  by_cases htime : Text.same "modifyTimestamp" name = true
  · unfold renamedAttributes
    rw [Attributes.values_put, if_pos htime]
    exact List.cons_ne_nil _ _
  by_cases hdn : Text.same "entryDN" name = true
  · unfold renamedAttributes
    rw [Attributes.values_put, if_neg htime, Attributes.values_put, if_pos hdn]
    exact List.cons_ne_nil _ _
  rw [values_renamedAttributes supply tick dn renamed rdn attrs hdn htime,
    OrderedSet.insertAll_ne_nil]
  rcases h with hnew | ⟨v, hv, hkept⟩
  · exact .inr hnew
  · refine .inl (List.ne_nil_of_mem (List.mem_filter.2 ⟨hv, ?_⟩))
    rw [hkept]
    rfl

/-! ## Entries below a renamed one -/

/-- A name below another one has the longer key. -/
theorem length_key_lt_of_prefix {above : Dn} (habove : above.rdns ≠ []) {front : List Rdn}
    (hfront : front ≠ []) :
    above.key.length < (⟨front ++ above.rdns⟩ : Dn).key.length := by
  rw [Dn.key_append hfront habove, String.length_append, String.length_append]
  have hcomma : ",".length = 1 := rfl
  omega

/-- A name below another one has more relative names. -/
theorem length_lt_of_isWithin {d base : Dn} (hwithin : d.isWithin base = true)
    (hne : d.key ≠ base.key) : base.rdns.length < d.rdns.length := by
  have hsuffix := Dn.isWithin_iff.1 hwithin
  have hle := hsuffix.length_le
  rw [List.length_map, List.length_map] at hle
  refine Nat.lt_of_le_of_ne hle fun heq => hne ?_
  have hkeys := hsuffix.eq_of_length (by rw [List.length_map, List.length_map, heq])
  unfold Dn.key
  rw [hkeys]

variable {dn renamed : Dn} {entries : Entries}

/-- What moves along gets another key than the renamed entry has. -/
theorem key_rebase_ne (hrenamed : renamed.rdns ≠ []) {d moved : Dn}
    (hmoved : d.rebase? dn renamed = some moved) (hne : d.key ≠ dn.key) :
    moved.key ≠ renamed.key := by
  unfold Dn.rebase? at hmoved
  split at hmoved
  · next hwithin =>
    cases hmoved
    have hlonger := length_lt_of_isWithin hwithin hne
    have htake : d.rdns.take (d.length - dn.length) ≠ [] := by
      intro hnil
      have hlength := congrArg List.length hnil
      rw [List.length_take] at hlength
      unfold Dn.length at hlength
      simp only [List.length_nil] at hlength
      omega
    have hlt := length_key_lt_of_prefix hrenamed htake
    intro heq
    rw [heq] at hlt
    omega
  · cases hmoved

/-- Moving another entry along leaves the renamed one in place. -/
theorem find?_moveDescendant_of_ne (hrenamed : renamed.rdns ≠ []) {key : String}
    (hkey : key ≠ dn.key) (hne : key ≠ renamed.key) :
    (moveDescendant dn renamed entries key).find? renamed.key = entries.find? renamed.key := by
  unfold moveDescendant
  split
  · rfl
  · next e hfind =>
    have hekey := (entries.find?_eq_some_iff.1 hfind).2
    have hmoved : ((e.dn.rebase? dn renamed).getD e.dn).key ≠ renamed.key := by
      cases hrebase : e.dn.rebase? dn renamed with
      | none => rwa [Option.getD_none, hekey]
      | some moved => exact key_rebase_ne hrenamed hrebase (hekey ▸ hkey)
    dsimp only
    rw [Entries.find?_insert, if_neg hmoved, Entries.find?_eraseKey, if_neg hne]

theorem find?_foldl_moveDescendant_of_notMem (hrenamed : renamed.rdns ≠ []) {keys : List String}
    (hkeys : dn.key ∉ keys) (hnot : renamed.key ∉ keys) :
    (keys.foldl (moveDescendant dn renamed) entries).find? renamed.key =
      entries.find? renamed.key := by
  induction keys generalizing entries with
  | nil => rfl
  | cons key keys ih =>
    rw [List.mem_cons, not_or] at hkeys hnot
    rw [List.foldl_cons, ih hkeys.2 hnot.2,
      find?_moveDescendant_of_ne hrenamed (Ne.symm hkeys.1) (Ne.symm hnot.1)]

/-- The renamed entry itself moves along if it lies below the old name. -/
theorem find?_moveDescendant_self (hrenamed : renamed.rdns ≠ []) {e : Entry}
    (hfind : entries.find? renamed.key = some e) (hwithin : e.dn.isWithin dn = true)
    (hne : renamed.key ≠ dn.key) :
    (moveDescendant dn renamed entries renamed.key).find? renamed.key = none := by
  have hekey := (entries.find?_eq_some_iff.1 hfind).2
  unfold moveDescendant
  rw [hfind]
  dsimp only
  obtain ⟨moved, hmoved⟩ : ∃ moved, e.dn.rebase? dn renamed = some moved := by
    rw [Dn.rebase?, if_pos hwithin]
    exact ⟨_, rfl⟩
  have hkey : moved.key ≠ renamed.key := key_rebase_ne hrenamed hmoved (hekey ▸ hne)
  rw [hmoved, Option.getD_some, Entries.find?_insert, if_neg hkey, Entries.find?_eraseKey,
    if_pos rfl]

/-- The keys of the entries below a name, in their order. -/
def keysBelow (dn : Dn) (entries : Entries) : List String :=
  (entries.list.filter fun e => e.dn.isWithin dn && !e.dn.same dn).map fun e => e.dn.key

theorem mem_keysBelow {key : String} :
    key ∈ keysBelow dn entries ↔ ∃ e ∈ entries.list, e.dn.IsBelow dn ∧ e.dn.key = key := by
  simp only [keysBelow, Dn.IsBelow, List.mem_map, List.mem_filter, Bool.and_eq_true,
    Bool.not_eq_true', and_assoc, Bool.not_eq_true]

theorem pairwise_keysBelow (dn : Dn) (entries : Entries) :
    (keysBelow dn entries).Pairwise (· < ·) :=
  List.pairwise_map.2 (entries.ordered.filter _)

theorem moveDescendants_eq (dn renamed : Dn) (entries : Entries) :
    moveDescendants dn renamed entries =
      (keysBelow dn entries).foldl (moveDescendant dn renamed) entries :=
  rfl

/-- A rename puts an entry below itself. -/
def NestsItself (dn renamed : Dn) : Prop :=
  renamed.isWithin dn = true ∧ ¬ renamed.same dn = true

/-- The renamed entry is among those that move along if it is put below itself. -/
theorem renamed_mem_keysBelow {e : Entry} (hdn : e.dn = renamed)
    (hfind : entries.find? renamed.key = some e) :
    renamed.key ∈ keysBelow dn entries ↔ NestsItself dn renamed := by
  obtain ⟨hmem, -⟩ := entries.find?_eq_some_iff.1 hfind
  rw [mem_keysBelow]
  constructor
  · rintro ⟨x, hx, hbelow, hkey⟩
    rw [entries.eq_of_key_eq hx hmem (by rw [hkey, hdn]), hdn] at hbelow
    exact hbelow
  · intro hnests
    exact ⟨e, hmem, hdn ▸ hnests, hdn ▸ rfl⟩

/-- **The renamed entry is found under its new name**, or nothing is if that lies below the old
name. -/
theorem find?_moveDescendants (hrenamed : renamed.rdns ≠ []) {e : Entry} (hdn : e.dn = renamed)
    (hfind : entries.find? renamed.key = some e) :
    (¬ NestsItself dn renamed →
      (moveDescendants dn renamed entries).find? renamed.key = some e) ∧
    (NestsItself dn renamed →
      (moveDescendants dn renamed entries).find? renamed.key = none) := by
  have hself : renamed.key ∈ keysBelow dn entries ↔ NestsItself dn renamed :=
    renamed_mem_keysBelow hdn hfind
  have hkeys : dn.key ∉ keysBelow dn entries := by
    rw [mem_keysBelow]
    rintro ⟨x, -, hbelow, hkey⟩
    exact hbelow.2 (Dn.same_iff.2 hkey)
  have hnodup : (keysBelow dn entries).Nodup := by
    refine (pairwise_keysBelow dn entries).imp ?_
    intro a b hlt heq
    exact String.lt_irrefl _ (heq ▸ hlt)
  rw [moveDescendants_eq]
  generalize keysBelow dn entries = keys at hkeys hself hnodup
  constructor
  · intro hnot
    rw [find?_foldl_moveDescendant_of_notMem hrenamed hkeys (fun h => hnot (hself.1 h)), hfind]
  · intro hnests
    obtain ⟨front, back, rfl⟩ := List.append_of_mem (hself.2 hnests)
    obtain ⟨-, hback, hapart⟩ := List.nodup_append.1 hnodup
    rw [List.mem_append, List.mem_cons, not_or, not_or] at hkeys
    have hfront : renamed.key ∉ front := fun h => hapart _ h _ List.mem_cons_self rfl
    have hbefore : (front.foldl (moveDescendant dn renamed) entries).find? renamed.key = some e :=
      (find?_foldl_moveDescendant_of_notMem hrenamed hkeys.1 hfront).trans hfind
    rw [List.foldl_append, List.foldl_cons,
      find?_foldl_moveDescendant_of_notMem hrenamed hkeys.2.2 (List.nodup_cons.1 hback).1]
    exact find?_moveDescendant_self hrenamed hbefore (hdn ▸ hnests.1)
      (fun h => hnests.2 (Dn.same_iff.2 h))

/-- What a rename that succeeds makes of the entries. -/
theorem run_rename_table {dir after : Directory} {supply : Supply} {dn landed : Dn} {rdn : Rdn}
    {superior : Option Dn}
    (h : dir.run (rename supply dn rdn superior) = (.ok landed, after)) :
    landed = renamedDn dn rdn superior ∧
      after.journal = dir.journal ++ [.rename dn (renamedDn dn rdn superior)] ∧
      ∃ e, dir.entry? dn = some e ∧ (landed.same dn = true ∨ dir.entry? landed = none) ∧
        after.entries = moveDescendants dn landed ((dir.entries.erase dn).insert
          ⟨landed, renamedAttributes supply dir.handled dn landed rdn e.attributes⟩) := by
  unfold rename at h
  rw [run_perform] at h
  split at h
  · next landed' entries houtcome =>
    cases h
    unfold afterRename checkWritable at houtcome
    split at houtcome
    · cases houtcome
    cases hentry : dir.entry? dn with
    | none =>
      rw [hentry] at houtcome
      cases houtcome
    | some e =>
      rw [hentry] at houtcome
      dsimp only [bind, Except.bind] at houtcome
      split at houtcome
      · cases houtcome
      · next hfree =>
        cases houtcome
        refine ⟨rfl, rfl, e, rfl, ?_, rfl⟩
        by_cases hsame : (renamedDn dn rdn superior).same dn = true
        · exact .inl hsame
        · refine .inr (Option.not_isSome_iff_eq_none.1 fun hthere => hfree ?_)
          rw [Bool.eq_false_iff.2 hsame, hthere]
          rfl
  · cases h

/-- The outcome of a rename that succeeds, at the new name. -/
theorem run_rename_ok {dir after : Directory} {supply : Supply} {dn landed : Dn} {rdn : Rdn}
    {superior : Option Dn}
    (h : dir.run (rename supply dn rdn superior) = (.ok landed, after)) :
    landed = renamedDn dn rdn superior ∧
      after.journal = dir.journal ++ [.rename dn (renamedDn dn rdn superior)] ∧
      ∃ e, dir.entry? dn = some e ∧
        (¬ NestsItself dn landed → after.entries.get? landed = some ⟨landed,
          renamedAttributes supply dir.handled dn landed rdn e.attributes⟩) ∧
        (NestsItself dn landed → after.entries.get? landed = none) := by
  obtain ⟨rfl, hjournal, e, hentry, -, htable⟩ := run_rename_table h
  refine ⟨rfl, hjournal, e, hentry, ?_⟩
  rw [htable]
  refine find?_moveDescendants (List.cons_ne_nil _ _) rfl ?_
  exact (Entries.find?_insert _ _ _).trans (if_pos rfl)

/-- A rename that succeeds moves no other entry than the renamed one if none is below it. -/
theorem run_rename_elsewhere {dir after : Directory} {supply : Supply} {dn landed x : Dn} {rdn : Rdn}
    {superior : Option Dn} {e : Entry}
    (hbelow : ∀ e ∈ dir.entries.list, e.dn.isWithin dn = true → e.dn.key = dn.key)
    (houtside : ¬ (renamedDn dn rdn superior).isWithin dn = true) (hx : dn.key ≠ x.key)
    (hentry : dir.entries.get? x = some e)
    (h : dir.run (rename supply dn rdn superior) = (.ok landed, after)) :
    landed.key ≠ x.key ∧ after.entries.get? x = some e := by
  obtain ⟨rfl, -, source, -, hfree, htable⟩ := run_rename_table h
  have hne : (renamedDn dn rdn superior).key ≠ x.key := by
    intro hkey
    rcases hfree with hsame | hfree
    · exact hx ((Dn.same_iff.1 hsame).symm.trans hkey)
    · rw [Directory.entry?, Entries.get?, hkey] at hfree
      cases hfree.symm.trans hentry
  refine ⟨hne, ?_⟩
  rw [htable, moveDescendants_eq, keysBelow, List.filter_eq_nil_iff.2, List.map_nil, List.foldl_nil]
  · refine (Entries.find?_insert _ _ _).trans ((if_neg hne).trans ?_)
    exact (Entries.find?_eraseKey _ _ _).trans ((if_neg hx).trans hentry)
  · intro y hy
    rw [Bool.and_eq_true, Bool.not_eq_true']
    rintro ⟨hwithin, hother⟩
    rcases Entries.mem_insertInto hy with rfl | hy
    · exact houtside hwithin
    · have hsame := Dn.same_iff.2 (hbelow y (List.mem_filter.1 hy).1 hwithin)
      rw [hsame] at hother
      cases hother

end Directory

end Roster
