import Roster.Proofs.Regrouping

/-!
# Diffs that went through

What a diff did to a group can be read off the diff if its requests succeeded, whatever the groups
held before: the references that it removes go one after the other, each in its first spelling, and
then those that it adds come last, unless they are there. `alters_applyDiff` says so for the values of
a single group, in their order.
-/

namespace Roster

namespace Text

/-- The values without the first spelling of one. -/
def dropFirst (values : List String) (value : String) : List String :=
  values.eraseP fun v => same v value

/-- The values with one more at their end, unless it is there in some spelling. -/
def addNew (values : List String) (value : String) : List String :=
  if holds values value then values else values ++ [value]

theorem filter_dropFirst {p : String → Bool} {values : List String} {old : String}
    (hp : ∀ v, same v old = true → p v = false) :
    (dropFirst values old).filter p = values.filter p := by
  unfold dropFirst
  induction values with
  | nil => rfl
  | cons v vs ih =>
    by_cases hv : same v old = true
    · simp [hv, hp v hv]
    · simp [hv, List.filter_cons, ih]

theorem filter_addNew {p : String → Bool} {values : List String} {new : String}
    (hp : p new = false) : (addNew values new).filter p = values.filter p := by
  unfold addNew
  split
  · rfl
  · simp [hp]

end Text

/-- Between two moments the values of an attribute of the entry at a name, if there is one, have
become what a function makes of them. -/
def Alters (dn : Dn) (name : String) (f : List String → List String) (dir after : Directory) :
    Prop :=
  (after.entries.get? dn).map (fun e => e.attributes.values name) =
    (dir.entries.get? dn).map fun e => f (e.attributes.values name)

variable {dn : Dn} {name : String} {dir mid after : Directory}

theorem Spares.alters (h : Spares dn name dir after) : Alters dn name id dir after :=
  h

/-- What is not written is looked up as before. -/
theorem Spares.valuesAt (h : Spares dn name dir after) :
    after.valuesAt dn name = dir.valuesAt dn name := by
  unfold Spares at h
  unfold Directory.valuesAt Directory.entry?
  cases hentry : dir.entries.get? dn with
  | none =>
    rw [hentry] at h
    rw [Option.map_eq_none_iff.1 h]
  | some e =>
    rw [hentry] at h
    obtain ⟨e', hentry', hvalues⟩ := Option.map_eq_some_iff.1 h
    rw [hentry']
    exact hvalues

theorem Alters.trans {f g : List String → List String} (hf : Alters dn name f dir mid)
    (hg : Alters dn name g mid after) : Alters dn name (fun vs => g (f vs)) dir after := by
  unfold Alters at hf hg ⊢
  have hmid := congrArg (Option.map g) hf
  rw [Option.map_map, Option.map_map] at hmid
  exact hg.trans hmid

/-- An entry whose values are altered is still there. -/
theorem Alters.stored {f : List String → List String} (h : Alters dn name f dir after) {e : Entry}
    (hstored : dir.entries.get? dn = some e) :
    ∃ e', after.entries.get? dn = some e' ∧
      e'.attributes.values name = f (e.attributes.values name) := by
  rw [Alters, hstored] at h
  exact Option.map_eq_some_iff.1 h

/-- A modification that succeeded altered its own entry only. -/
theorem alters_modify {supply : Supply} {group : Dn} {items : List Modification}
    {f : List String → List String} (hstamp : ¬ Text.same "modifyTimestamp" name = true)
    (hrun : dir.run (Directory.modify supply group items) = (.ok (), after))
    (hitems : ∀ {text : String} {attrs attrs' : Attributes},
      attrs.applyAll text items = .ok attrs' → attrs'.values name = f (attrs.values name)) :
    Alters dn name (fun vs => if group.key = dn.key then f vs else vs) dir after := by
  obtain ⟨-, e, attrs, hentry, happly, rfl⟩ := Directory.run_modify_ok hrun
  have hfound := Entries.get?_insert_stamped hentry
    (attrs.put "modifyTimestamp" [supply.time dir.handled]) dn
  unfold Alters
  dsimp only
  rw [hfound]
  by_cases hkey : group.key = dn.key
  · have hold : dir.entries.get? dn = some e :=
      (congrArg dir.entries.find? hkey).symm.trans hentry
    simp only [if_pos hkey, hold, Option.map_some, Attributes.values_put, if_neg hstamp,
      hitems happly]
  · simp only [if_neg hkey]

namespace KindDescriptor

variable {d : KindDescriptor} {supply : Supply} {m : GroupMembership}

/-- A membership that has been ended is gone from its group, in its first spelling. -/
theorem alters_removeMembership (hstamp : ¬ Text.same "modifyTimestamp" d.memberAttribute = true)
    (hrun : dir.run (d.removeMembership supply m) = (.ok (), after)) :
    Alters dn d.memberAttribute
      (fun vs => if m.group.key = dn.key then Text.dropFirst vs m.reference else vs) dir after := by
  refine alters_modify hstamp hrun fun {text attrs attrs'} happly => ?_
  rw [Attributes.applyAll_delete_one] at happly
  rw [(Attributes.deleteValue_ok happly).2, if_pos (Text.same_refl _), Text.dropFirst]

/-- Only a value that is there already makes a request to add it fail with this error. -/
theorem holdsAt_of_isValueExists {e : DirectoryError} (hexists : e.isValueExists = true)
    (hrun : dir.run (Directory.modify supply m.group
      [⟨.add, d.memberAttribute, [m.reference]⟩]) = (.error e, after)) :
    dir.HoldsAt d.memberAttribute m.group m.reference := by
  unfold Directory.modify at hrun
  rw [Directory.run_perform] at hrun
  split at hrun
  · cases hrun
  · next err houtcome =>
    cases hrun
    unfold Directory.afterModify Directory.checkWritable at houtcome
    split at houtcome
    · cases houtcome
      cases hexists
    · cases hentry : dir.entry? m.group with
      | none =>
        rw [hentry] at houtcome
        cases houtcome
        cases hexists
      | some group =>
        rw [Directory.holdsAt_iff hentry]
        rw [hentry] at houtcome
        dsimp only at houtcome
        rw [Attributes.applyAll_add_one, Attributes.addValue] at houtcome
        split at houtcome
        · next hheld => exact hheld
        · cases houtcome

/-- A membership that has been added stands at the end of its group, unless it was there. -/
theorem alters_addMembership (hstamp : ¬ Text.same "modifyTimestamp" d.memberAttribute = true)
    (hrun : dir.run (d.addMembership supply m) = (.ok (), after)) :
    Alters dn d.memberAttribute
      (fun vs => if m.group.key = dn.key then Text.addNew vs m.reference else vs) dir after := by
  unfold addMembership at hrun
  rw [Directory.run_tryCatch] at hrun
  split at hrun
  · next mid hmodify =>
    cases hrun
    refine alters_modify hstamp hmodify fun {text attrs attrs'} happly => ?_
    rw [Attributes.applyAll_add_one] at happly
    obtain ⟨hnew, hvalues⟩ := Attributes.addValue_ok happly
    rw [hvalues, if_pos (Text.same_refl _), Text.addNew, hnew]
    rfl
  · next e mid hmodify =>
    have hmid := Directory.run_perform_error hmodify
    split at hrun
    · next hexists =>
      cases hrun
      have hheld := holdsAt_of_isValueExists hexists hmodify
      rw [hmid, Alters, Directory.record_entries]
      cases hentry : dir.entries.get? dn with
      | none => rfl
      | some group =>
        rw [Option.map_some, Option.map_some]
        split
        · next hkey =>
          have hholds : Text.holds (group.attributes.values d.memberAttribute) m.reference =
              true := by
            rw [← Directory.holdsAt_iff hentry, Directory.HoldsAt, ← dir.valuesAt_congr hkey]
            exact hheld
          rw [Text.addNew, if_pos hholds]
        · rfl
    · cases hrun

end KindDescriptor

/-! ## Lists of memberships -/

/-- The references that some memberships are about in the group at a name. -/
def referencesIn (memberships : List GroupMembership) (dn : Dn) : List String :=
  (memberships.filter fun m => m.group.same dn).map GroupMembership.reference

theorem foldl_referencesIn_cons {f : List String → String → List String} {m : GroupMembership}
    {rest : List GroupMembership} (vs : List String) :
    (referencesIn (m :: rest) dn).foldl f vs =
      (referencesIn rest dn).foldl f (if m.group.key = dn.key then f vs m.reference else vs) := by
  by_cases hkey : m.group.key = dn.key <;> simp [referencesIn, hkey]

/-- Requests for memberships, each of which alters its own group, alter a group one by one. -/
theorem alters_forM {f : List String → String → List String}
    {request : GroupMembership → Directory.Action Unit} {memberships : List GroupMembership}
    (hrequest : ∀ (m : GroupMembership) (dir after : Directory),
      dir.run (request m) = (.ok (), after) →
      Alters dn name (fun vs => if m.group.key = dn.key then f vs m.reference else vs) dir after)
    (hrun : dir.run (memberships.forM request) = (.ok (), after)) :
    Alters dn name (fun vs => (referencesIn memberships dn).foldl f vs) dir after := by
  induction memberships generalizing dir with
  | nil =>
    cases hrun
    rfl
  | cons m rest ih =>
    obtain ⟨_, mid, hfirst, hrest⟩ := Directory.run_bind_ok.1 hrun
    simp only [foldl_referencesIn_cons]
    exact (hrequest m dir mid hfirst).trans (ih hrest)

/-- **A diff that went through** has taken its removals from a group and then put its additions in. -/
theorem KindDescriptor.alters_applyDiff {d : KindDescriptor} {supply : Supply}
    {diff : Diff GroupMembership} (hstamp : ¬ Text.same "modifyTimestamp" d.memberAttribute = true)
    (hrun : dir.run (d.applyDiff supply diff) = (.ok (), after)) :
    Alters dn d.memberAttribute (fun vs => (referencesIn diff.effectiveAdded dn).foldl Text.addNew
      ((referencesIn diff.effectiveRemoved dn).foldl Text.dropFirst vs)) dir after := by
  obtain ⟨_, mid, hremove, hadd⟩ := Directory.run_bind_ok.1 hrun
  exact (alters_forM (fun _ _ _ => d.alters_removeMembership hstamp) hremove).trans
    (alters_forM (fun _ _ _ => d.alters_addMembership hstamp) hadd)

end Roster
