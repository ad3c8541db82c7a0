import Roster.Proofs.Respelling
import Roster.Proofs.Veiling

/-!
# Directories that differ in some values

To add values and take them away again leaves no trace if nothing else about the attributes depends
on them. So some values are singled out (`Extras`), and two directories are compared without them
(`AlikeBut`). A modification that adds or deletes singled out values only, whether it succeeds or not,
leaves a directory that is alike in this way (`keeps_alikeBut_modify`), and where all values of two
such directories are others, the directories are the same (`AlikeBut.unstamped_eq`). The time stamp that
the server writes is left out throughout.
-/

namespace Roster

open Directory (Unwritten)

/-- Some values of each attribute, however its name is spelled. -/
structure Extras where
  values : String → List String
  congr {a b : String} : Text.same a b = true → values a = values b

/-- The value is one of those that are singled out, in some spelling. -/
def Extras.has (extras : Extras) (name value : String) : Bool :=
  Text.holds (extras.values name) value

variable {extras : Extras}

theorem Extras.has_congr {a b : String} (h : Text.same a b = true) (value : String) :
    extras.has a value = extras.has b value := by
  rw [has, extras.congr h, has]

/-! ## Attributes without some values -/

namespace AttributePairs

/-- What is left of an attribute without the values singled out, none if it has no others. -/
def withoutPair (extras : Extras) (pair : String × List String) : Option (String × List String) :=
  let kept := pair.2.filter fun v => !extras.has pair.1 v
  if kept.isEmpty then none else some (pair.1, kept)

/-- The attributes without the values singled out, and without attributes that have no others. -/
def without (extras : Extras) (pairs : AttributePairs) : AttributePairs :=
  pairs.filterMap (withoutPair extras)

variable {pairs : AttributePairs} {name : String}

theorem without_cons (pair : String × List String) (rest : AttributePairs) :
    without extras (pair :: rest) = (withoutPair extras pair).toList ++ without extras rest := by
  rw [without, List.filterMap_cons]
  cases withoutPair extras pair <;> rfl

/-- Only the values that are not singled out count. -/
theorem withoutPair_congr {other : String} {vs ws : List String} (hname : Text.same other name = true)
    (h : (vs.filter fun v => !extras.has name v) = ws.filter fun v => !extras.has name v) :
    withoutPair extras (other, vs) = withoutPair extras (other, ws) := by
  unfold withoutPair
  simp only [Extras.has_congr hname, h]

theorem withoutPair_of_all {pair : String × List String} (hname : Text.same pair.1 name = true)
    (h : ∀ v ∈ pair.2, extras.has name v = true) : withoutPair extras pair = none := by
  have hnone : (pair.2.filter fun v => !extras.has pair.1 v) = [] := by
    refine List.filter_eq_nil_iff.2 fun v hv => ?_
    rw [Extras.has_congr hname, h v hv]
    exact Bool.false_ne_true
  rw [withoutPair, hnone]
  rfl

/-- Rewriting the values of an attribute is not seen if it touches none but those singled out. -/
theorem without_upsert {f : List String → List String}
    (hf : ((f ((get? pairs name).getD [])).filter fun v => !extras.has name v) =
      ((get? pairs name).getD []).filter fun v => !extras.has name v) :
    without extras (upsert f name pairs) = without extras pairs := by
  induction pairs with
  | nil =>
    have hnone : withoutPair extras (name, f []) = none :=
      (withoutPair_congr (Text.same_refl name) hf).trans rfl
    rw [upsert, without_cons, hnone]
    rfl
  | cons pair rest ih =>
    rw [get?_cons] at hf
    rw [upsert]
    split
    · next hname =>
      rw [if_pos hname] at hf
      have hpair : withoutPair extras (pair.1, f pair.2) = withoutPair extras pair :=
        withoutPair_congr hname hf
      rw [without_cons, without_cons, hpair]
    · next hname =>
      rw [if_neg hname] at hf
      rw [without_cons, without_cons, ih hf]

/-- Removing an attribute is not seen if all of its values are singled out. -/
theorem without_filter (h : ∀ pair ∈ pairs, Text.same pair.1 name = true →
    ∀ v ∈ pair.2, extras.has name v = true) :
    without extras (pairs.filter fun pair => !Text.same pair.1 name) = without extras pairs := by
  induction pairs with
  | nil => rfl
  | cons pair rest ih =>
    rw [List.forall_mem_cons] at h
    rw [List.filter_cons, without_cons]
    by_cases hname : Text.same pair.1 name = true
    · rw [hname, withoutPair_of_all hname (h.1 hname)]
      exact ih h.2
    · rw [Bool.not_eq_true] at hname
      rw [hname, Bool.not_false, if_pos rfl, without_cons, ih h.2]

/-- Leaving out values adds no names. -/
theorem mem_keys_of_without {key : String} (h : key ∈ keys (without extras pairs)) :
    key ∈ keys pairs := by
  obtain ⟨_, hmem, rfl⟩ := List.mem_map.1 h
  obtain ⟨pair, hpair, hkept⟩ := List.mem_filterMap.1 hmem
  unfold withoutPair at hkept
  dsimp only at hkept
  split at hkept
  · cases hkept
  · cases hkept
    exact List.mem_map.2 ⟨pair, hpair, rfl⟩

/-- The values that are left under a name. -/
theorem get?_without (hdistinct : (keys pairs).Nodup) :
    (get? (without extras pairs) name).getD [] =
      ((get? pairs name).getD []).filter fun v => !extras.has name v := by
  induction pairs with
  | nil => rfl
  | cons pair rest ih =>
    rw [keys_cons, List.nodup_cons] at hdistinct
    rw [without_cons, get?_cons]
    by_cases hname : Text.same pair.1 name = true
    · rw [if_pos hname, Option.getD_some]
      unfold withoutPair
      simp only [Extras.has_congr hname]
      split
      · next hnone =>
        have hgone : get? (without extras rest) name = none :=
          get?_of_not_mem fun hmem =>
            hdistinct.1 (Text.same_iff.1 hname ▸ mem_keys_of_without hmem)
        rw [Option.toList_none, List.nil_append, hgone, Option.getD_none, List.isEmpty_iff.1 hnone]
      · rw [Option.toList_some, List.singleton_append, get?_cons, if_pos hname, Option.getD_some]
    · rw [if_neg hname, ← ih hdistinct.2]
      unfold withoutPair
      dsimp only
      split
      · rfl
      · rw [Option.toList_some, List.singleton_append, get?_cons, if_neg hname]

/-- Where there are other values only, nothing is left out. -/
theorem without_eq_self (h : ∀ pair ∈ pairs, pair.2 ≠ [] ∧ ∀ v ∈ pair.2, extras.has pair.1 v = false) :
    without extras pairs = pairs := by
  induction pairs with
  | nil => rfl
  | cons pair rest ih =>
    rw [List.forall_mem_cons] at h
    have hkept : (pair.2.filter fun v => !extras.has pair.1 v) = pair.2 :=
      List.filter_eq_self.2 fun v hv => by rw [h.1.2 v hv]; rfl
    have hsome : withoutPair extras pair = some pair := by
      rw [withoutPair, hkept]
      exact if_neg fun hempty => h.1.1 (List.isEmpty_iff.1 hempty)
    rw [without_cons, hsome, ih h.2]
    rfl

end AttributePairs

/-! ## Modifications -/

/-- The item adds or deletes values, all of them singled out. -/
def Modification.Within (extras : Extras) (item : Modification) : Prop :=
  item.op ≠ .replace ∧ item.values ≠ [] ∧ ∀ v ∈ item.values, extras.has item.name v = true

namespace Attributes

open AttributePairs (without)

variable {attrs after : Attributes} {dn name value : String}

theorem without_put {vs : List String}
    (h : (vs.filter fun v => !extras.has name v) =
      (attrs.values name).filter fun v => !extras.has name v) :
    without extras (attrs.put name vs).pairs = without extras attrs.pairs :=
  AttributePairs.without_upsert h

theorem without_addValue (h : addValue dn name attrs value = .ok after)
    (hvalue : extras.has name value = true) :
    without extras after.pairs = without extras attrs.pairs := by
  unfold addValue at h
  split at h
  · cases h
  · next hnew =>
    cases h
    have hextend : OrderedSet.insertAll (attrs.values name) [value] = attrs.values name ++ [value] := by
      rw [OrderedSet.insertAll_cons, OrderedSet.insertAll_nil, OrderedSet.insert, if_neg]
      rw [List.contains_iff_mem]
      exact fun hmem => hnew (Text.holds_of_mem hmem)
    refine AttributePairs.without_upsert ?_
    show ((OrderedSet.insertAll (attrs.values name) [value]).filter _) = (attrs.values name).filter _
    rw [hextend, List.filter_append, List.filter_singleton, hvalue]
    exact List.append_nil _

theorem without_deleteValue (h : deleteValue dn name attrs value = .ok after)
    (hvalue : extras.has name value = true) :
    without extras after.pairs = without extras attrs.pairs := by
  unfold deleteValue at h
  split at h
  · cases h
    have hsame (v : String) (hv : Text.same v value = true) : (!extras.has name v) = false := by
      rw [Extras.has, Text.holds_congr hv]
      exact congrArg not hvalue
    have hkept : ((Text.dropFirst (attrs.values name) value).filter fun v => !extras.has name v) =
        (attrs.values name).filter fun v => !extras.has name v := Text.filter_dropFirst hsame
    unfold settle
    split
    · next hempty =>
      rw [Text.dropFirst, List.isEmpty_iff.1 hempty] at hkept
      refine AttributePairs.without_filter fun pair hpair hname v hv => ?_
      have hall := List.filter_eq_nil_iff.1 hkept.symm v (values_of_mem hpair hname ▸ hv)
      simpa using hall
    · exact without_put hkept
  · cases h

theorem without_apply {item : Modification} (h : attrs.apply dn item = .ok after)
    (hitem : item.Within extras) : without extras after.pairs = without extras attrs.pairs := by
  obtain ⟨op, name, values⟩ := item
  obtain ⟨hop, hsome, hvalues⟩ := hitem
  cases op with
  | add =>
    refine foldlM_keeps (P := fun now => without extras now.pairs = without extras attrs.pairs)
      (fun hvalue hadd hnow => ?_) h rfl
    exact (without_addValue hadd (hvalues _ hvalue)).trans hnow
  | delete =>
    unfold apply at h
    dsimp only at h
    rw [if_neg fun hempty => hsome (List.isEmpty_iff.1 hempty)] at h
    refine foldlM_keeps (P := fun now => without extras now.pairs = without extras attrs.pairs)
      (fun hvalue hdelete hnow => ?_) h rfl
    exact (without_deleteValue hdelete (hvalues _ hvalue)).trans hnow
  | replace => exact absurd rfl hop

/-- Adding and deleting values that are singled out is not seen. -/
theorem without_applyAll {items : List Modification} (h : attrs.applyAll dn items = .ok after)
    (hitems : ∀ item ∈ items, item.Within extras) :
    without extras after.pairs = without extras attrs.pairs := by
  induction items generalizing attrs with
  | nil =>
    cases h
    rfl
  | cons item items ih =>
    obtain ⟨mid, hitem, hrest⟩ := applyAll_cons.1 h
    rw [List.forall_mem_cons] at hitems
    exact (ih hrest hitems.2).trans (without_apply hitem hitems.1)

end Attributes

/-! ## Directories -/

/-- An entry without the time stamp that the server writes. -/
def Entry.unstamped (e : Entry) : Entry :=
  ⟨e.dn, e.attributes.erase "modifyTimestamp"⟩

/-- The name of an entry, and its attributes without the time stamp and the values singled out. -/
def Entry.without (extras : Extras) (e : Entry) : Dn × AttributePairs :=
  (e.dn, e.unstamped.attributes.pairs.without extras)

variable {singled : Dn → Extras} {dir mid after : Directory} {supply : Supply}

/-- The directories hold the same entries without the values that are singled out for each name. -/
def AlikeBut (singled : Dn → Extras) (dir after : Directory) : Prop :=
  ∀ x : Dn, (after.entries.get? x).map (Entry.without (singled x)) =
    (dir.entries.get? x).map (Entry.without (singled x))

theorem alikeBut_frame (singled : Dn → Extras) : Frame (AlikeBut singled) where
  refl _ _ := rfl
  trans hab hbc x := (hbc x).trans (hab x)

theorem Directory.Unwritten.alikeBut (h : dir.Unwritten after) : AlikeBut singled dir after := by
  intro x
  rw [h.1]

/-- A modification that adds and deletes values singled out for its target is not seen. -/
theorem keeps_alikeBut_modify {group : Dn} {items : List Modification}
    (hstamp : ∀ item ∈ items, ¬ Text.same item.name "modifyTimestamp" = true)
    (hitems : ∀ x : Dn, group.key = x.key → ∀ item ∈ items, item.Within (singled x)) :
    Keeps (AlikeBut singled) (Directory.modify supply group items) := by
  intro dir x
  cases hrun : dir.run (Directory.modify supply group items) with
  | mk result after =>
    cases result with
    | error err =>
      rw [Directory.run_perform_error hrun]
      rfl
    | ok _ =>
      obtain ⟨-, e, attrs, hentry, happly, rfl⟩ := Directory.run_modify_ok hrun
      show ((dir.entries.insert _).get? x).map _ = _
      rw [Entries.get?_insert_stamped hentry]
      split
      · next hkey =>
        have hx : dir.entries.get? x = some e := (dir.get?_congr hkey).symm.trans hentry
        have herased := e.attributes.applyAll_erase group.text hstamp
        rw [happly] at herased
        rw [hx, Option.map_some, Option.map_some]
        refine congrArg some (Prod.ext rfl ?_)
        show ((attrs.put _ _).erase _).pairs.without _ = _
        rw [Attributes.put, Attributes.erase_upsert_same _ (Text.same_refl _)]
        exact Attributes.without_applyAll herased (hitems x hkey)
      · rfl

theorem Directory.filter_valuesAt {x : Dn} {e : Entry} {name : String}
    (hname : ¬ Text.same name "modifyTimestamp" = true) (hentry : dir.entries.get? x = some e) :
    ((e.unstamped.attributes.pairs.without extras).get? name).getD [] =
      (dir.valuesAt x name).filter fun v => !extras.has name v := by
  rw [AttributePairs.get?_without e.unstamped.attributes.distinct, Directory.valuesAt_of_entry? hentry]
  rw [← e.attributes.values_erase_of_ne hname]
  rfl

namespace AlikeBut

variable (h : AlikeBut singled dir after)

include h

theorem symm : AlikeBut singled after dir :=
  fun x => (h x).symm

theorem exists_entry {x : Dn} {e : Entry} (hentry : dir.entries.get? x = some e) :
    ∃ e', after.entries.get? x = some e' ∧ e'.dn = e.dn := by
  have hx := h x
  rw [hentry] at hx
  obtain ⟨e', he', heq⟩ := Option.map_eq_some_iff.1 hx
  exact ⟨e', he', congrArg Prod.fst heq⟩

/-- The other values of an attribute are the same. -/
theorem filter_eq {name : String} (hname : ¬ Text.same name "modifyTimestamp" = true) (x : Dn) :
    ((after.valuesAt x name).filter fun v => !(singled x).has name v) =
      (dir.valuesAt x name).filter fun v => !(singled x).has name v := by
  have hx := h x
  cases hdir : dir.entries.get? x with
  | none =>
    rw [hdir] at hx
    have hafter : after.entries.get? x = none := Option.map_eq_none_iff.1 hx
    have hnone (d : Directory) (hd : d.entries.get? x = none) : d.valuesAt x name = [] := by
      unfold Directory.valuesAt Directory.entry?
      rw [hd]
    rw [hnone dir hdir, hnone after hafter]
  | some e =>
    rw [hdir] at hx
    obtain ⟨e', hafter, heq⟩ := Option.map_eq_some_iff.1 hx
    rw [← Directory.filter_valuesAt hname hdir, ← Directory.filter_valuesAt hname hafter]
    exact congrArg (fun held : Dn × AttributePairs => (held.2.get? name).getD []) heq

/-- A value that is not singled out is held by both or by none. -/
theorem holdsAt {name value : String} (hname : ¬ Text.same name "modifyTimestamp" = true) {x : Dn}
    (hvalue : (singled x).has name value = false) (hheld : after.HoldsAt name x value) :
    dir.HoldsAt name x value := by
  unfold Directory.HoldsAt at hheld ⊢
  obtain ⟨v, hv, hsame⟩ := Text.holds_iff.1 hheld
  have hother : (singled x).has name v = false := by
    rwa [Extras.has, Text.holds_congr (Text.same_iff.2 hsame)]
  have hkept : v ∈ (after.valuesAt x name).filter fun v => !(singled x).has name v :=
    List.mem_filter.2 ⟨hv, by rw [hother]; rfl⟩
  rw [h.filter_eq hname] at hkept
  exact Text.holds_iff.2 ⟨v, (List.mem_filter.1 hkept).1, hsame⟩

/-- An attribute of which no value is singled out has the same values. -/
theorem valuesAt_eq {name : String} (hname : ¬ Text.same name "modifyTimestamp" = true) {x : Dn}
    (hnone : (singled x).values name = []) : after.valuesAt x name = dir.valuesAt x name := by
  have hall (vs : List String) : (vs.filter fun v => !(singled x).has name v) = vs := by
    refine List.filter_eq_self.2 fun v _ => ?_
    rw [Extras.has, hnone]
    rfl
  have heq := h.filter_eq hname x
  rwa [hall, hall] at heq

end AlikeBut

/-! ## Directories without empty attributes -/

/-- No attribute is without values. -/
def Attributes.Filled (attrs : Attributes) : Prop :=
  ∀ pair ∈ attrs.pairs, pair.2 ≠ []

instance (attrs : Attributes) : Decidable attrs.Filled :=
  inferInstanceAs (Decidable (∀ pair ∈ attrs.pairs, _))

namespace Attributes

variable {attrs after : Attributes} {dn name : String}

theorem filled_iff : attrs.Filled ↔ ∀ name, attrs.get? name ≠ some [] := by
  constructor
  · intro h name hempty
    obtain ⟨other, hmem, -⟩ := AttributePairs.mem_of_get? hempty
    exact h _ hmem rfl
  · intro h pair hpair hempty
    refine h pair.1 ?_
    rw [get?, AttributePairs.get?_of_mem attrs.distinct hpair (Text.same_refl _), hempty]

theorem Filled.put (h : attrs.Filled) {vs : List String} (hvs : vs ≠ []) :
    (attrs.put name vs).Filled := by
  rw [filled_iff] at h ⊢
  intro other
  rw [get?_put]
  split
  · exact fun hempty => hvs (Option.some.inj hempty)
  · exact h other

theorem Filled.erase (h : attrs.Filled) (name : String) : (attrs.erase name).Filled :=
  fun pair hpair => h pair (List.mem_filter.1 hpair).1

theorem Filled.settle (h : attrs.Filled) (name : String) (vs : List String) :
    (attrs.settle name vs).Filled := by
  unfold Attributes.settle
  split
  · exact h.erase name
  · next hsome => exact h.put fun hempty => hsome (List.isEmpty_iff.2 hempty)

/-- A modification leaves no attribute without values. -/
theorem Filled.applyAll (h : attrs.Filled) {items : List Modification}
    (happly : attrs.applyAll dn items = .ok after) : after.Filled := by
  induction items generalizing attrs with
  | nil =>
    cases happly
    exact h
  | cons item items ih =>
    obtain ⟨mid, hitem, hrest⟩ := applyAll_cons.1 happly
    refine ih ?_ hrest
    obtain ⟨op, name, values⟩ := item
    cases op with
    | add =>
      refine foldlM_keeps (P := Filled) (fun _ hadd hnow => ?_) hitem h
      unfold addValue at hadd
      split at hadd
      · cases hadd
      · cases hadd
        rw [filled_iff] at hnow ⊢
        intro other
        rw [get?_extend]
        split
        · refine fun hempty => absurd (Option.some.inj hempty) ?_
          exact OrderedSet.insertAll_ne_nil.2 (.inr (List.cons_ne_nil _ _))
        · exact hnow other
    | delete =>
      unfold apply at hitem
      dsimp only at hitem
      split at hitem
      · split at hitem
        · cases hitem
          exact h.erase name
        · cases hitem
      · refine foldlM_keeps (P := Filled) (fun _ hdelete hnow => ?_) hitem h
        unfold deleteValue at hdelete
        split at hdelete
        · cases hdelete
          exact hnow.settle _ _
        · cases hdelete
    | replace =>
      cases hitem
      exact h.settle name values

end Attributes

/-- Every attribute of every entry has values, each in one spelling. -/
def Directory.Tidy (dir : Directory) : Prop :=
  ∀ e ∈ dir.entries.list, e.attributes.Filled ∧ e.attributes.ValuesDistinct

instance (dir : Directory) : Decidable dir.Tidy :=
  inferInstanceAs (Decidable (∀ e ∈ dir.entries.list, _))

theorem Directory.distinct_valuesAt (h : ∀ e ∈ dir.entries.list, e.attributes.ValuesDistinct) (x : Dn)
    (name : String) : Text.Distinct (dir.valuesAt x name) := by
  unfold Directory.valuesAt
  split
  · next e hentry =>
    exact Attributes.valuesDistinct_iff.1 (h e (dir.entries.get?_eq_some_iff.1 hentry).1) name
  · exact List.nodup_nil

theorem Directory.Tidy.valuesAt (h : dir.Tidy) (x : Dn) (name : String) :
    Text.Distinct (dir.valuesAt x name) :=
  dir.distinct_valuesAt (fun e he => (h e he).2) x name

/-- What is tidy stays so. -/
def StaysTidy (dir after : Directory) : Prop :=
  dir.Tidy → after.Tidy

theorem staysTidy_frame : Frame StaysTidy where
  refl _ h := h
  trans hab hbc h := hbc (hab h)

theorem Directory.Unwritten.staysTidy (h : dir.Unwritten after) : StaysTidy dir after := by
  unfold StaysTidy Directory.Tidy
  rw [h.1]
  exact id

theorem keeps_staysTidy_modify {group : Dn} {items : List Modification}
    (hitems : ∀ item ∈ items, item.op = .replace → Text.Distinct item.values) :
    Keeps StaysTidy (Directory.modify supply group items) := by
  intro dir h
  cases hrun : dir.run (Directory.modify supply group items) with
  | mk result after =>
    cases result with
    | error err =>
      rw [Directory.run_perform_error hrun]
      exact h
    | ok _ =>
      obtain ⟨-, e, attrs, hentry, happly, rfl⟩ := Directory.run_modify_ok hrun
      obtain ⟨hfilled, hdistinct⟩ := h e (dir.entries.get?_eq_some_iff.1 hentry).1
      intro x hx
      rcases Entries.mem_insertInto hx with rfl | hx
      · exact ⟨(hfilled.applyAll happly).put (List.cons_ne_nil _ _),
          (hdistinct.applyAll happly hitems).put _ _⟩
      · exact h x hx

theorem staysTidy_membershipFrame (p : Provisioner) : MembershipFrame p StaysTidy where
  toFrame := staysTidy_frame
  quiet h := h.staysTidy
  add _ _ := staysTidy_frame.keeps_addMembership (keeps_staysTidy_modify (by simp))
  remove _ _ := keeps_staysTidy_modify (by simp)

/-- The directory holds none of the values singled out. -/
def Directory.FreeOf (dir : Directory) (singled : Dn → Extras) : Prop :=
  ∀ (x : Dn) (name value : String), ¬ Text.same name "modifyTimestamp" = true →
    (singled x).has name value = true → ¬ dir.HoldsAt name x value

/-- Where none of the values singled out is held, an entry without them is the entry. -/
theorem Directory.FreeOf.without_eq (h : dir.FreeOf singled) (htidy : dir.Tidy) {x : Dn} {e : Entry}
    (hentry : dir.entries.get? x = some e) :
    e.without (singled x) = (e.dn, e.unstamped.attributes.pairs) := by
  refine Prod.ext rfl (AttributePairs.without_eq_self fun pair hpair => ?_)
  obtain ⟨hmem, hstamp⟩ := List.mem_filter.1 hpair
  rw [Bool.not_eq_true', ← Bool.not_eq_true] at hstamp
  refine ⟨(htidy e (dir.entries.get?_eq_some_iff.1 hentry).1).1 pair hmem, fun v hv => ?_⟩
  refine Bool.eq_false_iff.2 fun hsingled => h x pair.1 v hstamp hsingled ?_
  rw [Directory.holdsAt_iff hentry]
  exact Text.holds_of_mem (Attributes.values_of_mem hmem (Text.same_refl _) ▸ hv)

/-- **Directories that are alike but for values that neither holds are the same** but for the time
stamps, down to the order of attributes and values. -/
theorem AlikeBut.unstamped_eq (h : AlikeBut singled dir after) (hdir : dir.FreeOf singled)
    (hafter : after.FreeOf singled) (htidy : dir.Tidy) (htidy' : after.Tidy) (x : Dn) :
    (after.entry? x).map Entry.unstamped = (dir.entry? x).map Entry.unstamped := by
  have hx := h x
  unfold Directory.entry?
  cases hentry : dir.entries.get? x with
  | none =>
    rw [hentry] at hx
    rw [Option.map_eq_none_iff.1 hx]
  | some e =>
    rw [hentry] at hx
    obtain ⟨e', hentry', heq⟩ := Option.map_eq_some_iff.1 hx
    rw [hdir.without_eq htidy hentry, hafter.without_eq htidy' hentry'] at heq
    rw [hentry', Option.map_some, Option.map_some]
    obtain ⟨hdn, hpairs⟩ := Prod.ext_iff.1 heq
    have hattributes : e'.unstamped.attributes = e.unstamped.attributes :=
      Attributes.eq_of_pairs hpairs
    unfold Entry.unstamped at hattributes ⊢
    rw [Option.some.injEq, Entry.mk.injEq]
    exact ⟨hdn, hattributes⟩

/-! ## Directories that only gain values -/

/-- What was held is still held, in some spelling; only the time stamp may have changed. -/
def Gains (dir after : Directory) : Prop :=
  ∀ (x : Dn) (name value : String), ¬ Text.same name "modifyTimestamp" = true →
    dir.HoldsAt name x value → after.HoldsAt name x value

theorem gains_frame : Frame Gains where
  refl _ _ _ _ _ := id
  trans hab hbc x name value hname h := hbc x name value hname (hab x name value hname h)

theorem Attributes.holds_applyAll_add {attrs after : Attributes} {dn name value : String}
    {items : List Modification} (happly : attrs.applyAll dn items = .ok after)
    (hitems : ∀ item ∈ items, item.op = .add) (h : Text.holds (attrs.values name) value = true) :
    Text.holds (after.values name) value = true := by
  induction items generalizing attrs with
  | nil =>
    cases happly
    exact h
  | cons item items ih =>
    obtain ⟨mid, hitem, hrest⟩ := applyAll_cons.1 happly
    rw [List.forall_mem_cons] at hitems
    refine ih hrest hitems.2 ?_
    obtain ⟨op, other, values⟩ := item
    obtain rfl : op = .add := hitems.1
    refine foldlM_keeps (P := fun attrs => Text.holds (attrs.values name) value = true)
      (fun _ hadd hnow => ?_) hitem h
    rw [(addValue_ok hadd).2]
    split
    · next hname =>
      rw [Text.holds_append_singleton, Attributes.values_congr _ hname]
      exact .inl hnow
    · exact hnow

theorem keeps_gains_modify {group : Dn} {items : List Modification}
    (hitems : ∀ item ∈ items, item.op = .add) :
    Keeps Gains (Directory.modify supply group items) := by
  intro dir x name value hname hheld
  cases hrun : dir.run (Directory.modify supply group items) with
  | mk result after =>
    cases result with
    | error err =>
      rw [Directory.run_perform_error hrun]
      exact hheld
    | ok _ =>
      obtain ⟨-, e, attrs, hentry, happly, hafter⟩ := Directory.run_modify_ok hrun
      obtain ⟨old, hold, hvalue⟩ := Directory.exists_entry_of_holdsAt hheld
      have hget : after.entry? x = if group.key = x.key then
          some ⟨e.dn, attrs.put "modifyTimestamp" [supply.time dir.handled]⟩ else dir.entry? x := by
        rw [hafter]
        exact Entries.get?_insert_stamped hentry _ x
      have hstamp : ¬ Text.same "modifyTimestamp" name = true := fun hsame =>
        hname (Text.same_symm hsame)
      by_cases hkey : group.key = x.key
      · rw [if_pos hkey] at hget
        obtain rfl : e = old :=
          Option.some.inj (hentry.symm.trans ((dir.get?_congr hkey).trans hold))
        rw [Directory.holdsAt_iff hget, Attributes.values_put, if_neg hstamp]
        exact Attributes.holds_applyAll_add happly hitems hvalue
      · rw [if_neg hkey] at hget
        exact (Directory.holdsAt_iff (hget.trans hold) name value).2 hvalue

end Roster
