import Roster.Proofs.NameKeys
import Roster.Proofs.Respelling

/-!
# Moving a subtree to a free place

A rename moves the entry at a name together with everything below it. Where the new name is neither the
old one nor below it, and nothing is stored at the new name or below it (`Relocates`), the rename is
carried out and moves exactly this subtree (`rename_moves_subtree`): the entry gives up the values of
its old relative name for those of the new one (`Relocated`), what was below it is below the new name
with its own name renewed, and the rest of the directory is as it was (`SubtreeMoved`).

The entries move one after the other, so it has to be seen that none arrives where another one is
stored. A name that has moved along is below the new name (`isWithin_follow`), and names that have been
read have one key only if they agree relative name by relative name; so an entry in the way would have
been below the new name from the start (`Relocates.not_collides`).
-/

namespace Roster

namespace Dn

variable {d e dn renamed : Dn}

/-- The name is what some text reads as. -/
def Read (d : Dn) : Prop :=
  ∃ text, parse text = .ok d

theorem Read.tidy (h : d.Read) : d.Tidy := by
  obtain ⟨text, hparse⟩ := h
  exact tidy_of_parse hparse

/-! ## Names that move along -/

/-- Spellings of one name are below the same names. -/
theorem isWithin_congr (hd : d.Tidy) (he : e.Tidy) (h : d.key = e.key) (base : Dn) :
    d.isWithin base = true ↔ e.isWithin base = true := by
  rw [isWithin_iff, isWithin_iff, (key_eq_iff_rdnKeys hd he).1 h]

theorem Tidy.follow (hd : d.Tidy) (hrenamed : renamed.Tidy) : (d.follow dn renamed).Tidy := by
  by_cases hwithin : d.isWithin dn = true
  · rw [Dn.follow, rebase?, if_pos hwithin, Option.getD_some]
    intro r hr
    rcases List.mem_append.1 hr with hr | hr
    · exact hd r (List.mem_of_mem_take hr)
    · exact hrenamed r hr
  · rwa [follow_of_not_isWithin hwithin]

/-- What moves along gets below the new name. -/
theorem isWithin_follow (h : d.isWithin dn = true) (renamed : Dn) :
    (d.follow dn renamed).isWithin renamed = true := by
  rw [follow, rebase?, if_pos h, Option.getD_some, isWithin_iff, List.map_append]
  exact List.suffix_append _ _

/-- What moves along to another place is not below the old name any more. -/
theorem not_isWithin_follow (h : d.isWithin dn = true) (hapart : ¬ renamed.isWithin dn = true)
    (hvacant : ¬ dn.isWithin renamed = true) : ¬ (d.follow dn renamed).isWithin dn = true := by
  intro hwithin
  rw [isWithin_iff] at hapart hvacant
  rcases List.suffix_or_suffix_of_suffix (isWithin_iff.1 hwithin)
    (isWithin_iff.1 (isWithin_follow h renamed)) with hsuffix | hsuffix
  · exact hapart hsuffix
  · exact hvacant hsuffix

end Dn

/-! ## The renamed entry -/

theorem Rdn.not_same_of_valuesOf_eq_nil {rdn : Rdn} {name : String} (h : rdn.valuesOf name = []) :
    ∀ ava ∈ rdn.avas, ¬ Text.same ava.type name = true := by
  rwa [valuesOf, List.map_eq_nil_iff, List.filter_eq_nil_iff] at h

namespace Attributes

variable {rdn : Rdn} {name : String}

theorem get?_dropValue_of_ne (attrs : Attributes) {ava : Ava}
    (hname : ¬ Text.same ava.type name = true) : (attrs.dropValue ava).get? name = attrs.get? name := by
  unfold dropValue
  split
  · rfl
  · dsimp only
    split
    · rw [get?_erase, if_neg hname]
    · rw [get?_put, if_neg hname]

theorem get?_dropRdn_of_unnamed (attrs : Attributes) (h : rdn.valuesOf name = []) :
    (attrs.dropRdn rdn).get? name = attrs.get? name := by
  have hnot := Rdn.not_same_of_valuesOf_eq_nil h
  unfold dropRdn
  generalize rdn.avas = avas at hnot
  induction avas generalizing attrs with
  | nil => rfl
  | cons ava avas ih =>
    rw [List.forall_mem_cons] at hnot
    rw [List.foldl_cons, ih _ hnot.2, get?_dropValue_of_ne attrs hnot.1]

theorem get?_extendByRdn_of_unnamed (attrs : Attributes) (h : rdn.valuesOf name = []) :
    (attrs.extendByRdn rdn).get? name = attrs.get? name := by
  have hnot := Rdn.not_same_of_valuesOf_eq_nil h
  unfold extendByRdn
  generalize rdn.avas = avas at hnot
  induction avas generalizing attrs with
  | nil => rfl
  | cons ava avas ih =>
    rw [List.forall_mem_cons] at hnot
    rw [List.foldl_cons, ih _ hnot.2, get?_extend, if_neg hnot.1]

end Attributes

namespace Directory

/-- What becomes of an entry that a rename moves from `dn` to `renamed`. -/
structure Relocated (time : String) (dn renamed : Dn) (rdn : Rdn) (e e' : Entry) : Prop where
  name : e'.dn = renamed
  /-- The values of the old relative name go, and then those of the new one come in. -/
  values (name : String) : ¬ Text.holds renamedStamps name = true → e'.attributes.values name =
    OrderedSet.insertAll ((e.attributes.values name).filter fun v => !Text.holds (dn.leafValues name) v)
      (rdn.valuesOf name)
  gone (name value : String) : value ∈ dn.leafValues name →
    ¬ Text.holds (rdn.valuesOf name) value = true →
    ¬ Text.holds (e'.attributes.values name) value = true
  present (name value : String) : value ∈ rdn.valuesOf name → value ∈ e'.attributes.values name
  /-- An attribute that is in neither relative name is left alone. -/
  unnamed (name : String) : ¬ Text.holds renamedStamps name = true → dn.leafValues name = [] →
    rdn.valuesOf name = [] → e'.attributes.get? name = e.attributes.get? name
  entryDN : e'.attributes.get? "entryDN" = some [renamed.text]
  modifyTimestamp : e'.attributes.get? "modifyTimestamp" = some [time]

/-- The entry at `dn` can be renamed, and its new name is neither at or below the old one nor is
anything stored at or below it. All names have been read, and no attribute that the server maintains
is in the relative names. -/
structure Relocates (dir : Directory) (dn : Dn) (rdn : Rdn) (superior : Option Dn) (e : Entry) :
    Prop where
  stored : dir.entry? dn = some e
  writable : dn.isIn dir.denied = false
  apart : ¬ (renamedDn dn rdn superior).isWithin dn = true
  vacant (x : Entry) : x ∈ dir.entries.list → ¬ x.dn.isWithin (renamedDn dn rdn superior) = true
  types (name : String) : Text.holds renamedStamps name = true →
    dn.leafValues name = [] ∧ rdn.valuesOf name = []
  read : dn.Read
  readRdn : ∃ d : Dn, d.Read ∧ rdn ∈ d.rdns
  readSuperior (above : Dn) : superior = some above → above.Read
  readEntries (x : Entry) : x ∈ dir.entries.list → x.dn.Read

/-- The entry at `dn` has become another one at `renamed`, the entries below it have moved along, and
the others are as they were. -/
structure SubtreeMoved (dn renamed : Dn) (e' : Entry) (dir after : Directory) : Prop where
  size : after.entries.size = dir.entries.size
  top : after.entry? renamed = some e'
  /-- What was below the old name is below the new one, and only says its new name. -/
  below (x : Entry) : x ∈ dir.entries.list → x.dn.IsBelow dn →
    ∃ moved, x.dn.rebase? dn renamed = some moved ∧
      after.entry? moved = some ⟨moved, x.attributes.put "entryDN" [moved.text]⟩
  others (x : Entry) : x ∈ dir.entries.list → ¬ x.dn.isWithin dn = true → after.entry? x.dn = some x
  /-- Nothing is left at the old name or below it. -/
  emptied (x : Entry) : x ∈ after.entries.list → ¬ x.dn.isWithin dn = true

variable {dir after : Directory} {supply : Supply} {dn renamed : Dn} {rdn : Rdn}
  {superior : Option Dn} {e x : Entry}

theorem holds_renamedStamps {name : String} : Text.holds renamedStamps name = true ↔
    Text.same "entryDN" name = true ∨ Text.same "modifyTimestamp" name = true := by
  unfold Text.holds renamedStamps
  simp only [List.any_cons, List.any_nil, Bool.or_false, Bool.or_eq_true, Text.same_comm name]

theorem get?_renamedAttributes_of_unnamed (supply : Supply) (tick : Nat) (renamed : Dn)
    (attrs : Attributes) {name : String} (hname : ¬ Text.holds renamedStamps name = true)
    (hleaf : dn.leafValues name = []) (hrdn : rdn.valuesOf name = []) :
    (renamedAttributes supply tick dn renamed rdn attrs).get? name = attrs.get? name := by
  rw [holds_renamedStamps, not_or] at hname
  unfold renamedAttributes
  rw [Attributes.get?_put, if_neg hname.2, Attributes.get?_put, if_neg hname.1,
    Attributes.get?_extendByRdn_of_unnamed _ hrdn]
  unfold Dn.leafValues at hleaf
  cases hold : dn.leaf? with
  | none => rfl
  | some old =>
    rw [hold] at hleaf
    exact attrs.get?_dropRdn_of_unnamed hleaf

theorem relocated_renamedAttributes (supply : Supply) (tick : Nat) (renamed : Dn) (e : Entry)
    (htypes : ∀ name, Text.holds renamedStamps name = true →
      dn.leafValues name = [] ∧ rdn.valuesOf name = []) :
    Relocated (supply.time tick) dn renamed rdn e
      ⟨renamed, renamedAttributes supply tick dn renamed rdn e.attributes⟩ := by
  have hvalues (name : String) (hname : ¬ Text.holds renamedStamps name = true) :
      (renamedAttributes supply tick dn renamed rdn e.attributes).values name =
        OrderedSet.insertAll
          ((e.attributes.values name).filter fun v => !Text.holds (dn.leafValues name) v)
          (rdn.valuesOf name) := by
    rw [holds_renamedStamps, not_or] at hname
    exact values_renamedAttributes supply tick dn renamed rdn e.attributes hname.1 hname.2
  refine ⟨rfl, hvalues, fun name value hvalue hnew hheld => ?_, fun name value hvalue => ?_,
    fun name => get?_renamedAttributes_of_unnamed supply tick renamed e.attributes, ?_, ?_⟩
  · have hname : ¬ Text.holds renamedStamps name = true := fun hname => by
      rw [(htypes name hname).1] at hvalue
      cases hvalue
    rw [hvalues name hname, Text.holds_iff] at hheld
    obtain ⟨v, hv, hsame⟩ := hheld
    rcases OrderedSet.mem_insertAll.1 hv with hold | hin
    · obtain ⟨-, hkept⟩ := List.mem_filter.1 hold
      rw [Text.holds_iff.2 ⟨value, hvalue, hsame.symm⟩] at hkept
      cases hkept
    · exact hnew (Text.holds_iff.2 ⟨v, hin, hsame⟩)
  · have hname : ¬ Text.holds renamedStamps name = true := fun hname => by
      rw [(htypes name hname).2] at hvalue
      cases hvalue
    rw [hvalues name hname]
    exact OrderedSet.mem_insertAll.2 (.inr hvalue)
  · unfold renamedAttributes
    rw [Attributes.get?_put, if_neg (by decide), Attributes.get?_put, if_pos (Text.same_refl _)]
  · unfold renamedAttributes
    rw [Attributes.get?_put, if_pos (Text.same_refl _)]

/-! ## Moving along without collisions -/

/-- A rename of a stored entry to a free name is carried out. -/
theorem run_rename_of_vacant (supply : Supply) (hwritable : dn.isIn dir.denied = false)
    (hentry : dir.entry? dn = some e) (hfree : dir.entry? (renamedDn dn rdn superior) = none) :
    ∃ after, dir.run (rename supply dn rdn superior) = (.ok (renamedDn dn rdn superior), after) := by
  have houtcome : afterRename supply dn (renamedDn dn rdn superior) rdn dir =
      .ok (renamedDn dn rdn superior, moveDescendants dn (renamedDn dn rdn superior)
        ((dir.entries.erase dn).insert ⟨renamedDn dn rdn superior, renamedAttributes supply
          dir.handled dn (renamedDn dn rdn superior) rdn e.attributes⟩)) := by
    unfold afterRename checkWritable
    simp only [hwritable, Bool.false_eq_true, if_false, hentry, hfree, Option.isSome_none,
      Bool.and_false]
    rfl
  unfold rename
  rw [run_perform, houtcome]
  exact ⟨_, rfl⟩

/-- Without a clash there are the entries that have moved along, and those that have stayed. -/
theorem mem_moveDescendants {table : Entries} (hrenamed : renamed.rdns ≠ [])
    (hfree : ¬ Clashes dn renamed table.names) (hx : x ∈ (moveDescendants dn renamed table).list) :
    (∃ y ∈ table.list, y.dn.IsBelow dn ∧ carried dn renamed y = x) ∨
      x ∈ table.list ∧ ¬ x.dn.IsBelow dn := by
  have hpartway := partway_moveDescendants hrenamed hfree
  have hfound := (Entries.find?_eq_some_iff _).2 ⟨hx, rfl⟩
  by_cases hmoved : ∃ y ∈ table.list, y.dn.key ∈ keysBelow dn table ∧
      (y.dn.follow dn renamed).key = x.dn.key
  · obtain ⟨y, hy, hmem, hkey⟩ := hmoved
    obtain ⟨z, hz, hbelow, hzy⟩ := mem_keysBelow.1 hmem
    rw [table.eq_of_key_eq hz hy hzy] at hbelow
    have hplace := hpartway.moved y hy hmem
    rw [hkey, hfound] at hplace
    exact .inl ⟨y, hy, hbelow, (Option.some.inj hplace).symm⟩
  · rw [hpartway.others _ fun y hy hmem hkey => hmoved ⟨y, hy, hmem, hkey⟩] at hfound
    split at hfound
    · cases hfound
    · next hstays =>
      obtain ⟨hmem, -⟩ := table.find?_eq_some_iff.1 hfound
      exact .inr ⟨hmem, fun hbelow => hstays (mem_keysBelow.2 ⟨x, hmem, hbelow, rfl⟩)⟩

namespace Relocates

variable (h : Relocates dir dn rdn superior e)

include h

theorem tidy_renamed : (renamedDn dn rdn superior).Tidy := by
  have habove : ((superior <|> dn.parent?).getD .root).Tidy := by
    cases hsuperior : superior with
    | some above => exact (h.readSuperior above hsuperior).tidy
    | none =>
      have hdn := h.read.tidy
      obtain ⟨rdns⟩ := dn
      cases rdns with
      | nil => exact nofun
      | cons r rest => exact fun s hs => hdn s (List.mem_cons_of_mem r hs)
  obtain ⟨d, hread, hrdn⟩ := h.readRdn
  intro r hr
  rcases List.mem_cons.1 hr with rfl | hr
  · exact hread.tidy r hrdn
  · exact habove r hr

theorem vacant_entry : dir.entry? (renamedDn dn rdn superior) = none := by
  refine Option.eq_none_iff_forall_ne_some.2 fun x hx => ?_
  obtain ⟨hmem, hkey⟩ := dir.entries.get?_eq_some_iff.1 hx
  refine h.vacant x hmem ?_
  exact (Dn.isWithin_congr (h.readEntries x hmem).tidy h.tidy_renamed hkey _).2 (Dn.isWithin_refl _)

/-- The old name is not below the new one. -/
theorem not_isWithin : ¬ dn.isWithin (renamedDn dn rdn superior) = true := by
  obtain ⟨hmem, hkey⟩ := dir.entries.get?_eq_some_iff.1 h.stored
  intro hwithin
  exact h.vacant e hmem
    ((Dn.isWithin_congr (h.readEntries e hmem).tidy h.read.tidy hkey _).2 hwithin)

/-- No entry moves to the place of another one. -/
theorem not_collides : ¬ Collides dn (renamedDn dn rdn superior) dir.entries.names := by
  rintro ⟨d, hd, hbelow, other, hother, hkey, -, -⟩
  have hrenamed := h.tidy_renamed
  have hmoved : d.rebase? dn (renamedDn dn rdn superior) =
      some (d.follow dn (renamedDn dn rdn superior)) := by
    rw [Dn.follow, Dn.rebase?, if_pos hbelow.1, Option.getD_some]
  have hdn : d.key ≠ dn.key := fun hkey => hbelow.2 (Dn.same_iff.2 hkey)
  rcases List.mem_cons.1 hother with rfl | hother
  · exact key_rebase_ne (List.cons_ne_nil _ _) hmoved hdn hkey.symm
  · obtain ⟨x, hx, rfl⟩ := Entries.mem_names.1 (List.mem_filter.1 hother).1
    have hd : d.Tidy := by
      rcases List.mem_cons.1 hd with rfl | hd
      · exact hrenamed
      · obtain ⟨y, hy, rfl⟩ := Entries.mem_names.1 (List.mem_filter.1 hd).1
        exact (h.readEntries y hy).tidy
    refine h.vacant x hx ?_
    rw [Dn.isWithin_congr (h.readEntries x hx).tidy (hd.follow hrenamed) hkey]
    exact Dn.isWithin_follow hbelow.1 _

/-- Nothing is left at the old name or below it. -/
theorem not_isWithin_of_mem
    (hrun : dir.run (rename supply dn rdn superior) = (.ok (renamedDn dn rdn superior), after))
    (hx : x ∈ after.entries.list) : ¬ x.dn.isWithin dn = true := by
  obtain ⟨hlanded, -, top, -, hname, hfree, htable⟩ := run_rename_exchange hrun
  have hcalm : ¬ Clashes dn (renamedDn dn rdn superior) (exchange dir.entries dn top).names := by
    rw [clashes_exchange hfree, hname]
    exact h.not_collides
  rw [htable] at hx
  rcases mem_moveDescendants hlanded hcalm hx with ⟨y, -, hbelow, rfl⟩ | ⟨hmem, hstays⟩
  · exact Dn.not_isWithin_follow hbelow.1 h.apart h.not_isWithin
  · rcases (mem_exchange hfree).1 hmem with rfl | ⟨-, hother⟩
    · rw [hname]
      exact h.apart
    · exact fun hwithin => hstays ⟨hwithin, fun hsame => hother (Dn.same_iff.1 hsame)⟩

theorem subtreeMoved
    (hrun : dir.run (rename supply dn rdn superior) = (.ok (renamedDn dn rdn superior), after)) :
    SubtreeMoved dn (renamedDn dn rdn superior) ⟨renamedDn dn rdn superior, renamedAttributes supply
      dir.handled dn (renamedDn dn rdn superior) rdn e.attributes⟩ dir after where
  size := (size_rename hrun).2.2 h.not_collides
  top := by
    obtain ⟨-, -, old, hold, htop, -⟩ := run_rename_ok hrun
    cases h.stored.symm.trans hold
    exact htop fun hnests => h.apart hnests.1
  below x hx hbelow := by
    have hother : x.dn.key ≠ dn.key := fun hkey => hbelow.2 (Dn.same_iff.2 hkey)
    refine ⟨x.dn.follow dn (renamedDn dn rdn superior), ?_, ?_⟩
    · rw [Dn.follow, Dn.rebase?, if_pos hbelow.1, Option.getD_some]
    · exact (get?_rename hrun h.not_collides hx hother).trans (congrArg some (if_pos hbelow))
  others x hx houtside := by
    have hother : x.dn.key ≠ dn.key := fun hkey => houtside
      ((Dn.isWithin_congr (h.readEntries x hx).tidy h.read.tidy hkey dn).2 (Dn.isWithin_refl dn))
    have hfound := get?_rename hrun h.not_collides hx hother
    rwa [Dn.follow_of_not_isWithin houtside, if_neg fun hbelow => houtside hbelow.1] at hfound
  emptied _ := h.not_isWithin_of_mem hrun

end Relocates

/-- **A rename to a free place moves a subtree.** -/
theorem rename_moves_subtree (supply : Supply) (dir : Directory) (dn : Dn) (rdn : Rdn)
    (superior : Option Dn) :
    (∀ e, Relocates dir dn rdn superior e → ∃ after e',
      dir.run (rename supply dn rdn superior) = (.ok (renamedDn dn rdn superior), after) ∧
      Relocated (supply.time dir.handled) dn (renamedDn dn rdn superior) rdn e e' ∧
      SubtreeMoved dn (renamedDn dn rdn superior) e' dir after) ∧
    (∀ err after, dir.run (rename supply dn rdn superior) = (.error err, after) →
      after.entries = dir.entries) := by
  constructor
  · intro e h
    obtain ⟨after, hrun⟩ := run_rename_of_vacant supply h.writable h.stored h.vacant_entry
    exact ⟨after, _, hrun, relocated_renamedAttributes supply dir.handled _ e h.types,
      h.subtreeMoved hrun⟩
  · intro err after hrun
    rw [run_perform_error hrun, record_entries]

end Directory

namespace Sample

/-- A directory with an entry, one below it and one beside it. -/
def annWithPhone : Directory :=
  directory [(name "cn" "ann", [("cn", ["Ann", "bea"]), ("sn", ["lee"])]),
    (under (name "cn" "ann") "cn" "phone", [("cn", ["phone"])]), (name "cn" "team", [("cn", ["team"])])]

theorem annWithPhone_relocates :
    annWithPhone.Relocates (name "CN" "ANN") (.single "uid" "a1") none
      ⟨name "cn" "ann", .ofList [("cn", ["Ann", "bea"]), ("sn", ["lee"])]⟩ where
  stored := by decide +kernel
  writable := by decide +kernel
  apart := by decide +kernel
  vacant := by decide +kernel
  types type htype := by
    rcases Directory.holds_renamedStamps.1 htype with hsame | hsame
    · exact ⟨((Rdn.single "CN" "ANN").valuesOf_congr hsame).symm,
        ((Rdn.single "uid" "a1").valuesOf_congr hsame).symm⟩
    · exact ⟨((Rdn.single "CN" "ANN").valuesOf_congr hsame).symm,
        ((Rdn.single "uid" "a1").valuesOf_congr hsame).symm⟩
  read := ⟨"CN=ANN,dc=x", by decide +kernel⟩
  readRdn := ⟨name "uid" "a1", ⟨"uid=a1,dc=x", by decide +kernel⟩, List.mem_cons_self⟩
  readSuperior := nofun
  readEntries x hx := by
    have hread : ∀ x ∈ annWithPhone.entries.list, Dn.parse x.dn.text = .ok x.dn := by
      decide +kernel
    exact ⟨_, hread x hx⟩

/-- The entry keeps what its old name did not say, and its phone comes along. -/
theorem annWithPhone_moved :
    ∃ after e', annWithPhone.run
        (Directory.rename provisioner.supply (name "CN" "ANN") (.single "uid" "a1") none) =
          (.ok (name "uid" "a1"), after) ∧
      after.entry? (name "uid" "a1") = some e' ∧ e'.attributes.values "cn" = ["bea"] ∧
      e'.attributes.values "uid" = ["a1"] ∧ after.entries.size = 3 ∧
      after.entry? (under (name "uid" "a1") "cn" "phone") =
        some ⟨under (name "uid" "a1") "cn" "phone",
          .ofList [("cn", ["phone"]), ("entryDN", ["cn=phone,uid=a1,dc=x"])]⟩ := by
  obtain ⟨after, e', hrun, hentry, hmoved⟩ :=
    (Directory.rename_moves_subtree provisioner.supply annWithPhone (name "CN" "ANN")
      (.single "uid" "a1") none).1 _ annWithPhone_relocates
  refine ⟨after, e', hrun, hmoved.top, (hentry.values "cn" (by decide)).trans (by decide +kernel),
    (hentry.values "uid" (by decide)).trans (by decide +kernel),
    hmoved.size.trans (by decide +kernel), ?_⟩
  obtain ⟨moved, hrebased, hphone⟩ := hmoved.below
    ⟨under (name "cn" "ann") "cn" "phone", .ofList [("cn", ["phone"])]⟩ (by decide +kernel)
    (by decide +kernel)
  have hname : moved = under (name "uid" "a1") "cn" "phone" :=
    Option.some.inj (hrebased.symm.trans (by decide +kernel))
  subst hname
  exact hphone

end Sample

end Roster
