import Roster.Proofs.Memberships
import Roster.Proofs.Retention

/-!
# What carrying out a diff does to the groups

Memberships change by requests for single values, removals before additions. If no group holds a
value in two spellings, then a diff whose removals are all held succeeds, and afterwards the groups
hold what they held, without the removals and with the additions (`run_applyDiff`). `Regrouped`
follows the diffs of several kinds through an operation.
-/

namespace Roster

namespace Text

/-! ## Values in one spelling each -/

/-- No two of the values are equal ignoring ASCII case. -/
def Distinct (values : List String) : Prop :=
  (values.map fold).Nodup

instance (values : List String) : Decidable (Distinct values) :=
  inferInstanceAs (Decidable (List.Nodup _))

theorem holds_iff_mem {values : List String} {x : String} :
    holds values x = true ↔ fold x ∈ values.map fold := by
  rw [holds_iff, List.mem_map]

/-- The first spelling of a value is erased where the fold of the value is. -/
theorem map_fold_eraseP (values : List String) (value : String) :
    (values.eraseP fun v => same v value).map fold = (values.map fold).erase (fold value) := by
  rw [List.erase_eq_eraseP', List.eraseP_map]
  rfl

theorem Distinct.eraseP {values : List String} (h : Distinct values) (value : String) :
    Distinct (values.eraseP fun v => same v value) := by
  rw [Distinct, map_fold_eraseP]
  exact h.erase (fold value)

theorem Distinct.append {values : List String} (h : Distinct values) {value : String}
    (hnew : holds values value = false) : Distinct (values ++ [value]) := by
  have hnot : fold value ∉ values.map fold := by
    rw [← holds_iff_mem, hnew]
    exact Bool.false_ne_true
  rw [Distinct, List.map_append, List.map_singleton, List.nodup_append]
  refine ⟨h, by simp, fun a ha b hb hab => ?_⟩
  rw [List.mem_singleton.1 hb] at hab
  exact hnot (hab ▸ ha)

/-- Without its first spelling a value is gone, if it has only one. -/
theorem Distinct.holds_eraseP {values : List String} (h : Distinct values) (value x : String) :
    holds (values.eraseP fun v => same v value) x = true ↔
      holds values x = true ∧ ¬ same value x = true := by
  rw [holds_iff_mem, map_fold_eraseP, h.mem_erase_iff, holds_iff_mem, same_iff, and_comm, ne_eq,
    eq_comm]

/-- Every attribute has its values in one spelling each if every listed one has. -/
theorem distinct_values {attrs : Attributes} (h : ∀ pair ∈ attrs.pairs, Distinct pair.2)
    (name : String) : Distinct (attrs.values name) := by
  rw [Attributes.values]
  cases hget : attrs.get? name with
  | none => exact List.nodup_nil
  | some values =>
    obtain ⟨other, hmem, -⟩ := AttributePairs.mem_of_get? hget
    exact h _ hmem

theorem holds_append_singleton (values : List String) (value x : String) :
    holds (values ++ [value]) x = true ↔ holds values x = true ∨ same value x = true := by
  simp [holds, List.any_append, same_comm value x]

end Text

namespace Directory

/-! ## Requests for single values -/

/-- The values of an attribute of the entry at a name; there are none without an entry. -/
def valuesAt (dir : Directory) (dn : Dn) (name : String) : List String :=
  match dir.entry? dn with
  | some e => e.attributes.values name
  | none => []

/-- The entry at a name has a value of an attribute, ignoring ASCII case. -/
def HoldsAt (dir : Directory) (name : String) (dn : Dn) (value : String) : Prop :=
  Text.holds (dir.valuesAt dn name) value = true

instance (dir : Directory) (name : String) (dn : Dn) (value : String) :
    Decidable (dir.HoldsAt name dn value) :=
  inferInstanceAs (Decidable (_ = true))

/-- There is an entry at a name. -/
def Stored (dir : Directory) (dn : Dn) : Prop :=
  (dir.entries.get? dn).isSome = true

instance (dir : Directory) (dn : Dn) : Decidable (dir.Stored dn) :=
  inferInstanceAs (Decidable (_ = true))

/-- The name under which the entry at a name is stored. -/
def storedName (dir : Directory) (dn : Dn) : Option Dn :=
  (dir.entries.get? dn).map Entry.dn

theorem stored_iff {dir : Directory} {dn : Dn} :
    dir.Stored dn ↔ ∃ e, dir.entry? dn = some e :=
  Option.isSome_iff_exists

theorem stored_congr {dir after : Directory} {dn : Dn}
    (h : after.storedName dn = dir.storedName dn) : after.Stored dn ↔ dir.Stored dn := by
  have hsome := congrArg Option.isSome h
  rw [storedName, storedName, Option.isSome_map, Option.isSome_map] at hsome
  rw [Stored, Stored, hsome]

theorem get?_congr (dir : Directory) {dn other : Dn} (h : dn.key = other.key) :
    dir.entries.get? dn = dir.entries.get? other := by
  rw [Entries.get?, Entries.get?, h]

theorem valuesAt_congr (dir : Directory) {dn other : Dn} (h : dn.key = other.key) (name : String) :
    dir.valuesAt dn name = dir.valuesAt other name := by
  rw [valuesAt, valuesAt, entry?, entry?, dir.get?_congr h]

theorem valuesAt_of_entry? {dir : Directory} {dn : Dn} {e : Entry} (h : dir.entry? dn = some e)
    (name : String) : dir.valuesAt dn name = e.attributes.values name := by
  rw [valuesAt, h]

theorem holdsAt_iff {dir : Directory} {dn : Dn} {e : Entry} (h : dir.entry? dn = some e)
    (name value : String) :
    dir.HoldsAt name dn value ↔ Text.holds (e.attributes.values name) value = true := by
  rw [HoldsAt, valuesAt_of_entry? h]

/-- What is held depends on no spelling: not of the name of the entry, of the attribute, nor of the
value. -/
theorem holdsAt_congr (dir : Directory) {dn other : Dn} {name name' value value' : String}
    (hkey : dn.key = other.key) (hname : Text.same name name' = true)
    (hvalue : Text.same value value' = true) :
    dir.HoldsAt name dn value ↔ dir.HoldsAt name' other value' := by
  have hvalues : dir.valuesAt other name = dir.valuesAt other name' := by
    unfold valuesAt
    cases dir.entry? other with
    | none => rfl
    | some e => exact e.attributes.values_congr hname
  rw [HoldsAt, HoldsAt, dir.valuesAt_congr hkey, hvalues, Text.holds_congr hvalue]

/-- A value that is held is one of a stored entry. -/
theorem exists_entry_of_holdsAt {dir : Directory} {name value : String} {dn : Dn}
    (h : dir.HoldsAt name dn value) :
    ∃ e, dir.entry? dn = some e ∧ Text.holds (e.attributes.values name) value = true := by
  unfold HoldsAt valuesAt at h
  split at h
  · next e hentry => exact ⟨e, hentry, h⟩
  · cases h

/-- Between two moments only attributes of one sort have changed, apart from time stamps. -/
structure Touched (sort : String → Prop) (dir after : Directory) : Prop where
  denied : after.denied = dir.denied
  names (dn : Dn) : after.storedName dn = dir.storedName dn
  others (dn : Dn) (name : String) : ¬ sort name → ¬ Text.same "modifyTimestamp" name = true →
    after.valuesAt dn name = dir.valuesAt dn name

theorem touched_frame (sort : String → Prop) : Frame (Touched sort) where
  refl _ := ⟨rfl, fun _ => rfl, fun _ _ _ _ => rfl⟩
  trans hab hbc :=
    ⟨hbc.denied.trans hab.denied, fun dn => (hbc.names dn).trans (hab.names dn),
      fun dn name hsort hstamp => (hbc.others dn name hsort hstamp).trans
        (hab.others dn name hsort hstamp)⟩

theorem Unwritten.entry?_eq {dir after : Directory} (h : dir.Unwritten after) (dn : Dn) :
    after.entry? dn = dir.entry? dn := by
  unfold Directory.entry?
  rw [h.1]

theorem Unwritten.holdsAt_iff {dir after : Directory} (h : dir.Unwritten after)
    {name value : String} {dn : Dn} : after.HoldsAt name dn value ↔ dir.HoldsAt name dn value := by
  unfold HoldsAt valuesAt
  rw [h.entry?_eq]

theorem Unwritten.touched {dir after : Directory} (h : dir.Unwritten after)
    (sort : String → Prop) : Touched sort dir after := by
  refine ⟨h.2.1, fun dn => ?_, fun dn name _ _ => ?_⟩
  · rw [storedName, h.1, storedName]
  · rw [valuesAt, entry?, h.1]
    rfl

theorem Touched.mono {sort sort' : String → Prop} {dir after : Directory}
    (h : Touched sort dir after) (hsort : ∀ name, sort name → sort' name) :
    Touched sort' dir after :=
  ⟨h.denied, h.names, fun dn name hnot => h.others dn name fun hname => hnot (hsort name hname)⟩

/-- A stored entry stays stored. -/
theorem Touched.stored {sort : String → Prop} {dir after : Directory}
    (h : Touched sort dir after) {dn : Dn} (hstored : dir.Stored dn) : after.Stored dn :=
  (stored_congr (h.names dn)).2 hstored

/-- A modification by one item touches the attribute that the item names. -/
theorem touched_of_single {op : ModifyOp} {name : String} {values : List String}
    {dir after : Directory}
    (h : Touched (fun other => ∃ item ∈ [(⟨op, name, values⟩ : Modification)],
      Text.same item.name other = true) dir after) :
    Touched (fun other => Text.same name other = true) dir after := by
  simpa using h

/-- A modification whose items can be carried out writes the attributes that they name. -/
theorem run_modify_touched {dir : Directory} (supply : Supply) {dn : Dn}
    {items : List Modification} {e : Entry} {attrs : Attributes} (hdenied : dir.denied = [])
    (hentry : dir.entry? dn = some e) (happly : e.attributes.applyAll dn.text items = .ok attrs) :
    ∃ after, dir.run (modify supply dn items) = (.ok (), after) ∧
      Touched (fun name => ∃ item ∈ items, Text.same item.name name = true) dir after ∧
      ∀ other name, ¬ Text.same "modifyTimestamp" name = true →
        after.valuesAt other name =
          if dn.key = other.key then attrs.values name else dir.valuesAt other name := by
  have hwritable : dn.isIn dir.denied = false := by rw [hdenied]; rfl
  obtain ⟨after, hrun, hafter, hentries⟩ : ∃ after, dir.run (modify supply dn items) =
      (.ok (), after) ∧ after.denied = dir.denied ∧ ∀ other, after.entries.get? other =
        if dn.key = other.key then
          some ⟨e.dn, attrs.put "modifyTimestamp" [supply.time dir.handled]⟩
        else dir.entries.get? other :=
    ⟨_, run_modify_of_applyAll hwritable hentry happly, rfl,
      fun other => Entries.get?_insert_stamped hentry _ other⟩
  have hwritten (other : Dn) (name : String) (hstamp : ¬ Text.same "modifyTimestamp" name = true) :
      after.valuesAt other name =
        if dn.key = other.key then attrs.values name else dir.valuesAt other name := by
    rw [valuesAt, entry?, hentries]
    by_cases hkey : dn.key = other.key
    · rw [if_pos hkey, if_pos hkey]
      dsimp only
      rw [Attributes.values_put, if_neg hstamp]
    · rw [if_neg hkey, if_neg hkey]
      rfl
  refine ⟨after, hrun, ⟨hafter, fun other => ?_, fun other name hsort hstamp => ?_⟩, hwritten⟩
  · rw [storedName, hentries, storedName]
    split
    · next hkey =>
      have hold : dir.entries.get? dn = some e := hentry
      rw [← dir.get?_congr hkey, hold]
      rfl
    · rfl
  · rw [hwritten other name hstamp]
    split
    · next hkey =>
      rw [← dir.valuesAt_congr hkey, valuesAt_of_entry? hentry]
      exact Attributes.values_applyAll_of_ne happly fun item hitem hname =>
        hsort ⟨item, hitem, hname⟩
    · rfl

/-- Replacements succeed at a stored name, and write the attributes that they name. -/
theorem run_modify_replace {dir : Directory} (supply : Supply) {dn : Dn}
    {items : List Modification} (hdenied : dir.denied = []) (hstored : dir.Stored dn)
    (hitems : ∀ item ∈ items, item.op = .replace) :
    ∃ after, dir.run (modify supply dn items) = (.ok (), after) ∧
      Touched (fun name => ∃ item ∈ items, Text.same item.name name = true) dir after := by
  obtain ⟨e, hentry⟩ := stored_iff.1 hstored
  obtain ⟨attrs, happly⟩ := Attributes.exists_applyAll_replace dn.text e.attributes hitems
  obtain ⟨after, hrun, htouched, -⟩ := run_modify_touched supply hdenied hentry happly
  exact ⟨after, hrun, htouched⟩

end Directory

namespace Attributes

theorem applyAll_add_one (dn name value : String) (attrs : Attributes) :
    attrs.applyAll dn [⟨.add, name, [value]⟩] = addValue dn name attrs value := by
  have happly : attrs.apply dn ⟨.add, name, [value]⟩ = addValue dn name attrs value := by
    simp [apply]
  simp [applyAll, happly]

theorem applyAll_delete_one (dn name value : String) (attrs : Attributes) :
    attrs.applyAll dn [⟨.delete, name, [value]⟩] = deleteValue dn name attrs value := by
  have happly : attrs.apply dn ⟨.delete, name, [value]⟩ = deleteValue dn name attrs value := by
    simp [apply]
  simp [applyAll, happly]

end Attributes

namespace Directory

/-! ## Single memberships -/

theorem run_modify_of_error {dir : Directory} (supply : Supply) {dn : Dn}
    {items : List Modification} {e : Entry} {err : DirectoryError}
    (hwritable : dn.isIn dir.denied = false) (hentry : dir.entry? dn = some e)
    (happly : e.attributes.applyAll dn.text items = .error err) :
    dir.run (modify supply dn items) = (.error err, dir.record (.modify dn items)) := by
  have houtcome : afterModify supply dn items dir = .error err := by
    unfold afterModify checkWritable
    simp only [hwritable, Bool.false_eq_true, if_false, hentry, happly]
    rfl
  unfold modify
  rw [run_perform, houtcome]

/-- Between two moments one attribute has changed, apart from time stamps: it has each value in one
spelling, and the entries hold what is said. -/
structure Rewritten (name : String) (held : Dn → String → Prop) (dir after : Directory) :
    Prop where
  touched : Touched (fun other => Text.same name other = true) dir after
  distinct (dn : Dn) : Text.Distinct (after.valuesAt dn name)
  holds (dn : Dn) (value : String) : after.HoldsAt name dn value ↔ held dn value

end Directory

/-- The membership is that of a value in the group at a name, however both are spelled. -/
def GroupMembership.Covers (m : GroupMembership) (dn : Dn) (value : String) : Prop :=
  m.group.key = dn.key ∧ Text.same m.reference value = true

namespace KindDescriptor

open Directory (Rewritten)

variable {d : KindDescriptor} {dir : Directory} {m : GroupMembership}

/-- A membership that a group holds can be ended. -/
theorem run_removeMembership (supply : Supply)
    (hstamp : ¬ Text.same "modifyTimestamp" d.memberAttribute = true) (hdenied : dir.denied = [])
    (hdistinct : ∀ dn, Text.Distinct (dir.valuesAt dn d.memberAttribute))
    (hheld : dir.HoldsAt d.memberAttribute m.group m.reference) :
    ∃ after, dir.run (d.removeMembership supply m) = (.ok (), after) ∧
      Rewritten d.memberAttribute (fun dn value =>
        dir.HoldsAt d.memberAttribute dn value ∧ ¬ m.Covers dn value) dir after := by
  obtain ⟨group, hentry, hvalue⟩ := Directory.exists_entry_of_holdsAt hheld
  have happly : group.attributes.applyAll m.group.text
      [⟨.delete, d.memberAttribute, [m.reference]⟩] = .ok (group.attributes.settle
        d.memberAttribute ((group.attributes.values d.memberAttribute).eraseP fun v =>
          Text.same v m.reference)) := by
    rw [Attributes.applyAll_delete_one, Attributes.deleteValue, if_pos hvalue]
  obtain ⟨after, hrun, htouched, hvalues⟩ :=
    Directory.run_modify_touched supply hdenied hentry happly
  have hafter (dn : Dn) : after.valuesAt dn d.memberAttribute =
      if m.group.key = dn.key then
        (dir.valuesAt dn d.memberAttribute).eraseP fun v => Text.same v m.reference
      else dir.valuesAt dn d.memberAttribute := by
    rw [hvalues dn _ hstamp]
    split
    · next hkey =>
      rw [Attributes.values_settle, if_pos (Text.same_refl _), ← dir.valuesAt_congr hkey,
        Directory.valuesAt_of_entry? hentry]
    · rfl
  refine ⟨after, hrun, Directory.touched_of_single htouched, fun dn => ?_, fun dn value => ?_⟩
  · rw [hafter]
    split
    · exact (hdistinct dn).eraseP _
    · exact hdistinct dn
  · rw [Directory.HoldsAt, hafter, GroupMembership.Covers]
    by_cases hkey : m.group.key = dn.key
    · rw [if_pos hkey, (hdistinct dn).holds_eraseP, Directory.HoldsAt]
      simp only [hkey, true_and]
    · rw [if_neg hkey, Directory.HoldsAt]
      simp only [hkey, false_and, not_false_eq_true, and_true]

/-- Adding a membership that is there already counts as done, and changes nothing. -/
theorem run_addMembership_held (supply : Supply) (hwritable : m.group.isIn dir.denied = false)
    (hheld : dir.HoldsAt d.memberAttribute m.group m.reference) :
    dir.run (d.addMembership supply m) =
      (.ok (), dir.record (.modify m.group [⟨.add, d.memberAttribute, [m.reference]⟩])) := by
  obtain ⟨group, hentry, hvalue⟩ := Directory.exists_entry_of_holdsAt hheld
  have happly : group.attributes.applyAll m.group.text
      [⟨.add, d.memberAttribute, [m.reference]⟩] =
        .error (.valueExists m.group.text d.memberAttribute (some m.reference)) := by
    rw [Attributes.applyAll_add_one, Attributes.addValue, if_pos hvalue]
  have hfail := Directory.run_modify_of_error supply hwritable hentry happly
  rw [addMembership, Directory.run_tryCatch, hfail]
  rfl

/-- A membership that is not there can be added to a stored group. -/
theorem run_addMembership_new (supply : Supply)
    (hstamp : ¬ Text.same "modifyTimestamp" d.memberAttribute = true) (hdenied : dir.denied = [])
    (hstored : dir.Stored m.group)
    (hnew : ¬ dir.HoldsAt d.memberAttribute m.group m.reference) :
    ∃ after, dir.run (d.addMembership supply m) = (.ok (), after) ∧
      Directory.Touched (fun other => Text.same d.memberAttribute other = true) dir after ∧
      ∀ dn, after.valuesAt dn d.memberAttribute =
        if m.group.key = dn.key then dir.valuesAt dn d.memberAttribute ++ [m.reference]
        else dir.valuesAt dn d.memberAttribute := by
  obtain ⟨group, hentry⟩ := Directory.stored_iff.1 hstored
  have hgroup := Directory.valuesAt_of_entry? hentry d.memberAttribute
  rw [Directory.HoldsAt, hgroup, Bool.not_eq_true] at hnew
  have hadd : Attributes.addValue m.group.text d.memberAttribute group.attributes m.reference =
      .ok (group.attributes.extend d.memberAttribute [m.reference]) := by
    rw [Attributes.addValue, hnew]
    rfl
  obtain ⟨after, hrun, htouched, hvalues⟩ := Directory.run_modify_touched supply
    hdenied hentry ((Attributes.applyAll_add_one _ _ _ _).trans hadd)
  refine ⟨after, ?_, Directory.touched_of_single htouched, fun dn => ?_⟩
  · rw [addMembership, Directory.run_tryCatch, hrun]
  · rw [hvalues dn _ hstamp]
    split
    · next hkey =>
      rw [(Attributes.addValue_ok hadd).2, if_pos (Text.same_refl _), ← hgroup,
        dir.valuesAt_congr hkey]
    · rfl

/-- A membership in a stored group can be added, whether it is there already or not. -/
theorem run_addMembership (supply : Supply)
    (hstamp : ¬ Text.same "modifyTimestamp" d.memberAttribute = true) (hdenied : dir.denied = [])
    (hdistinct : ∀ dn, Text.Distinct (dir.valuesAt dn d.memberAttribute))
    (hstored : dir.Stored m.group) :
    ∃ after, dir.run (d.addMembership supply m) = (.ok (), after) ∧
      Rewritten d.memberAttribute (fun dn value =>
        dir.HoldsAt d.memberAttribute dn value ∨ m.Covers dn value) dir after := by
  by_cases hheld : dir.HoldsAt d.memberAttribute m.group m.reference
  · have hwritable : m.group.isIn dir.denied = false := by rw [hdenied]; rfl
    refine ⟨_, run_addMembership_held supply hwritable hheld,
      ⟨rfl, fun _ => rfl, fun _ _ _ _ => rfl⟩, hdistinct, fun dn value => ⟨.inl, ?_⟩⟩
    rintro (h | ⟨hkey, hsame⟩)
    · exact h
    · exact (dir.holdsAt_congr hkey (Text.same_refl _) hsame).1 hheld
  · obtain ⟨after, hrun, htouched, hafter⟩ :=
      run_addMembership_new supply hstamp hdenied hstored hheld
    refine ⟨after, hrun, htouched, fun dn => ?_, fun dn value => ?_⟩
    · rw [hafter]
      split
      · next hkey =>
        refine (hdistinct dn).append ?_
        rw [← dir.valuesAt_congr hkey]
        exact Bool.not_eq_true _ ▸ hheld
      · exact hdistinct dn
    · rw [Directory.HoldsAt, hafter, GroupMembership.Covers]
      by_cases hkey : m.group.key = dn.key
      · rw [if_pos hkey, Text.holds_append_singleton, Directory.HoldsAt]
        simp only [hkey, true_and]
      · rw [if_neg hkey, Directory.HoldsAt]
        simp only [hkey, false_and, or_false]

/-! ## Lists of memberships -/

/-- Memberships that are all held, no two of them about the same value of a group, can be ended one
after the other. -/
theorem run_removeMemberships (supply : Supply)
    (hstamp : ¬ Text.same "modifyTimestamp" d.memberAttribute = true)
    {memberships : List GroupMembership} (hdenied : dir.denied = [])
    (hdistinct : ∀ dn, Text.Distinct (dir.valuesAt dn d.memberAttribute))
    (hheld : ∀ m ∈ memberships, dir.HoldsAt d.memberAttribute m.group m.reference)
    (hapart : memberships.Pairwise fun a b => ¬ a.Covers b.group b.reference) :
    ∃ after, dir.run (d.removeMemberships supply memberships) = (.ok (), after) ∧
      Rewritten d.memberAttribute (fun dn value => dir.HoldsAt d.memberAttribute dn value ∧
        ¬ ∃ m ∈ memberships, m.Covers dn value) dir after := by
  induction memberships generalizing dir with
  | nil =>
    refine ⟨dir, rfl, (Directory.touched_frame _).refl dir, hdistinct, fun dn value => ?_⟩
    simp
  | cons m rest ih =>
    rw [List.pairwise_cons] at hapart
    obtain ⟨mid, hfirst, hmid⟩ := run_removeMembership supply hstamp hdenied hdistinct
      (hheld m List.mem_cons_self)
    have hstill : ∀ m' ∈ rest, mid.HoldsAt d.memberAttribute m'.group m'.reference :=
      fun m' hm' => (hmid.holds _ _).2 ⟨hheld m' (List.mem_cons_of_mem m hm'), hapart.1 m' hm'⟩
    obtain ⟨after, hrest, hafter⟩ :=
      ih (hmid.touched.denied.trans hdenied) hmid.distinct hstill hapart.2
    refine ⟨after, Directory.run_bind_ok.2 ⟨(), mid, hfirst, hrest⟩,
      (Directory.touched_frame _).trans hmid.touched hafter.touched, hafter.distinct,
      fun dn value => ?_⟩
    rw [hafter.holds, hmid.holds]
    simp only [List.mem_cons, exists_eq_or_imp, not_or, and_assoc]

/-- Memberships in stored groups can be added one after the other. -/
theorem run_forM_addMembership (supply : Supply)
    (hstamp : ¬ Text.same "modifyTimestamp" d.memberAttribute = true)
    {memberships : List GroupMembership} (hdenied : dir.denied = [])
    (hdistinct : ∀ dn, Text.Distinct (dir.valuesAt dn d.memberAttribute))
    (hstored : ∀ m ∈ memberships, dir.Stored m.group) :
    ∃ after, dir.run (memberships.forM (d.addMembership supply)) = (.ok (), after) ∧
      Rewritten d.memberAttribute (fun dn value => dir.HoldsAt d.memberAttribute dn value ∨
        ∃ m ∈ memberships, m.Covers dn value) dir after := by
  induction memberships generalizing dir with
  | nil =>
    refine ⟨dir, rfl, (Directory.touched_frame _).refl dir, hdistinct, fun dn value => ?_⟩
    simp
  | cons m rest ih =>
    obtain ⟨mid, hfirst, hmid⟩ := run_addMembership supply hstamp hdenied hdistinct
      (hstored m List.mem_cons_self)
    have hstill : ∀ m' ∈ rest, mid.Stored m'.group := fun m' hm' =>
      hmid.touched.stored (hstored m' (List.mem_cons_of_mem m hm'))
    obtain ⟨after, hrest, hafter⟩ :=
      ih (hmid.touched.denied.trans hdenied) hmid.distinct hstill
    refine ⟨after, Directory.run_bind_ok.2 ⟨(), mid, hfirst, hrest⟩,
      (Directory.touched_frame _).trans hmid.touched hafter.touched, hafter.distinct,
      fun dn value => ?_⟩
    rw [hafter.holds, hmid.holds]
    simp only [List.mem_cons, exists_eq_or_imp, or_assoc]

end KindDescriptor

/-! ## Diffs -/

namespace GroupMembership

theorem Covers.congr {a b : GroupMembership} (h : (a == b) = true) {dn : Dn} {value : String}
    (hb : b.Covers dn value) : a.Covers dn value := by
  rw [beq_iff] at h
  exact ⟨h.2.trans hb.1, h.1 ▸ hb.2⟩

/-- Memberships of one value in one group are about each other's values. -/
theorem Covers.meet {a b : GroupMembership} {dn : Dn} {value : String} (ha : a.Covers dn value)
    (hb : b.Covers dn value) : a.Covers b.group b.reference :=
  ⟨ha.1.trans hb.1.symm, Text.same_trans ha.2 (Text.same_symm hb.2)⟩

end GroupMembership

namespace Diff

open Directory (HoldsAt)

/-- The diff can be carried out in a directory: what it removes is held, no value of a group is
removed under two spellings, and what it adds goes to stored groups. -/
structure Admissible (diff : Diff GroupMembership) (name : String) (dir : Directory) : Prop where
  held (m : GroupMembership) : m ∈ diff.removed → dir.HoldsAt name m.group m.reference
  once : diff.removed.Pairwise fun a b => (a == b) = false
  apart (a b : GroupMembership) : a ∈ diff.removed → b ∈ diff.removed →
    a.Covers b.group b.reference → (a == b) = true
  stored (m : GroupMembership) : m ∈ diff.added → dir.Stored m.group

variable {diff : Diff GroupMembership} {name : String} {dir : Directory}

/-- A diff can still be carried out after other attributes have changed. -/
theorem Admissible.touched {sort : String → Prop} {after : Directory}
    (h : diff.Admissible name dir) (htouched : Directory.Touched sort dir after)
    (hsort : ¬ sort name) (hstamp : ¬ Text.same "modifyTimestamp" name = true) :
    diff.Admissible name after where
  held m hm := by
    rw [HoldsAt, htouched.others _ _ hsort hstamp]
    exact h.held m hm
  once := h.once
  apart := h.apart
  stored m hm := htouched.stored (h.stored m hm)

/-- No two of the effective removals are about the same value of a group. -/
theorem Admissible.pairwise_effectiveRemoved (h : diff.Admissible name dir) :
    diff.effectiveRemoved.Pairwise fun a b => ¬ a.Covers b.group b.reference := by
  refine (h.once.filter _).imp_of_mem fun {a b} ha hb hne hcovers => ?_
  have heq := h.apart a b (List.mem_filter.1 ha).1 (List.mem_filter.1 hb).1 hcovers
  rw [heq] at hne
  cases hne

/-- What cancels out makes no difference: a membership to be removed and added is there already. -/
theorem Admissible.effective_iff (h : diff.Admissible name dir) (dn : Dn) (value : String) :
    (dir.HoldsAt name dn value ∧ ¬ ∃ m ∈ diff.effectiveRemoved, m.Covers dn value) ∨
        (∃ m ∈ diff.effectiveAdded, m.Covers dn value) ↔
      (dir.HoldsAt name dn value ∧ ¬ ∃ m ∈ diff.removed, m.Covers dn value) ∨
        ∃ m ∈ diff.added, m.Covers dn value := by
  constructor
  · rintro (⟨hholds, hkept⟩ | ⟨m, hm, hcovers⟩)
    · by_cases hremoved : ∃ m ∈ diff.removed, m.Covers dn value
      · obtain ⟨m, hm, hcovers⟩ := hremoved
        by_cases hadded : ∃ a ∈ diff.added, (m == a) = true
        · obtain ⟨a, ha, heq⟩ := hadded
          exact .inr ⟨a, ha, hcovers.congr (BEq.symm heq)⟩
        · refine absurd ⟨m, OrderedSet.mem_difference.2 ⟨hm, ?_⟩, hcovers⟩ hkept
          exact fun a ha heq => hadded ⟨a, ha, heq⟩
      · exact .inl ⟨hholds, hremoved⟩
    · exact .inr ⟨m, (OrderedSet.mem_difference.1 hm).1, hcovers⟩
  · rintro (⟨hholds, hkept⟩ | ⟨a, ha, hcovers⟩)
    · exact .inl ⟨hholds, fun ⟨m, hm, hm'⟩ => hkept ⟨m, (OrderedSet.mem_difference.1 hm).1, hm'⟩⟩
    · by_cases hremoved : ∃ r ∈ diff.removed, (a == r) = true
      · obtain ⟨r, hr, heq⟩ := hremoved
        have hr' : r.Covers dn value := hcovers.congr (BEq.symm heq)
        refine .inl ⟨?_, ?_⟩
        · exact (dir.holdsAt_congr hr'.1 (Text.same_refl _) hr'.2).1 (h.held r hr)
        · rintro ⟨m, hm, hm'⟩
          obtain ⟨hmem, hnot⟩ := OrderedSet.mem_difference.1 hm
          exact hnot a ha (BEq.trans (h.apart m r hmem hr (hm'.meet hr')) (BEq.symm heq))
      · have hkept := OrderedSet.mem_difference.2 ⟨ha, fun r hr heq => hremoved ⟨r, hr, heq⟩⟩
        exact .inr ⟨a, hkept, hcovers⟩

end Diff

/-- What the groups hold after a diff: what they held, without the removals and with the
additions. -/
def Diff.Leaves (diff : Diff GroupMembership) (name : String) (dir : Directory) (dn : Dn)
    (value : String) : Prop :=
  (dir.HoldsAt name dn value ∧ ¬ ∃ m ∈ diff.removed, m.Covers dn value) ∨
    ∃ m ∈ diff.added, m.Covers dn value

/-- **Carrying out a diff** that can be carried out. -/
theorem KindDescriptor.run_applyDiff {d : KindDescriptor} {dir : Directory}
    {diff : Diff GroupMembership} (supply : Supply)
    (hstamp : ¬ Text.same "modifyTimestamp" d.memberAttribute = true) (hdenied : dir.denied = [])
    (hdistinct : ∀ dn, Text.Distinct (dir.valuesAt dn d.memberAttribute))
    (hdiff : diff.Admissible d.memberAttribute dir) :
    ∃ after, dir.run (d.applyDiff supply diff) = (.ok (), after) ∧
      Directory.Rewritten d.memberAttribute (diff.Leaves d.memberAttribute dir) dir after := by
  obtain ⟨mid, hremove, hmid⟩ := run_removeMemberships supply hstamp hdenied hdistinct
    (fun m hm => hdiff.held m (OrderedSet.mem_difference.1 hm).1) hdiff.pairwise_effectiveRemoved
  have hstored : ∀ m ∈ diff.effectiveAdded, mid.Stored m.group := fun m hm =>
    hmid.touched.stored (hdiff.stored m (OrderedSet.mem_difference.1 hm).1)
  obtain ⟨after, hadd, hafter⟩ := run_forM_addMembership supply hstamp
    (hmid.touched.denied.trans hdenied) hmid.distinct hstored
  refine ⟨after, Directory.run_bind_ok.2 ⟨(), mid, hremove, hadd⟩,
    (Directory.touched_frame _).trans hmid.touched hafter.touched, hafter.distinct,
    fun dn value => ?_⟩
  rw [hafter.holds, hmid.holds]
  exact hdiff.effective_iff dn value

end Roster
