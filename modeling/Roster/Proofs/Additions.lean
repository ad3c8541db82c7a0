import Roster.Proofs.Creation
import Roster.Proofs.Extras

/-!
# What an addition of values brings in

An addition of values brings in the listed values and one reference in each listed group
(`Provisioner.extras`). If it can be taken back at all (`Reversible`), these are new where it brings
them, and nothing else changes (`Reversible.adds`). The references of the entry stay the same
meanwhile, so all groups of a kind are joined under one reference.
-/

namespace Roster

open Directory (Unwritten unwritten_frame)

/-! ## Lists of values -/

namespace Attributes

variable {attrs after : Attributes} {dn name : String} {vs : List String}

/-- A list of values that has been added was free of repetitions and new. -/
theorem foldlM_addValue_ok (h : vs.foldlM (addValue dn name) attrs = .ok after) :
    Text.Distinct vs ∧ (∀ v ∈ vs, ¬ Text.holds (attrs.values name) v = true) ∧
      after.values name = attrs.values name ++ vs := by
  induction vs generalizing attrs with
  | nil =>
    cases h
    exact ⟨List.nodup_nil, nofun, (List.append_nil _).symm⟩
  | cons v vs ih =>
    obtain ⟨mid, hfirst, hrest⟩ := Dn.bind_ok h
    obtain ⟨hnew, hvalues⟩ := addValue_ok hfirst
    have hmid : mid.values name = attrs.values name ++ [v] :=
      (hvalues name).trans (if_pos (Text.same_refl name))
    obtain ⟨hdistinct, hlater, hafter⟩ := ih hrest
    simp only [hmid, Text.holds_append_singleton, not_or] at hlater
    refine ⟨List.nodup_cons.2 ⟨fun hmem => ?_, hdistinct⟩, ?_, ?_⟩
    · obtain ⟨w, hw, hsame⟩ := List.mem_map.1 hmem
      exact (hlater w hw).2 (Text.same_iff.2 hsame.symm)
    · rw [List.forall_mem_cons]
      exact ⟨Bool.not_eq_true _ ▸ hnew, fun w hw => (hlater w hw).1⟩
    · rw [hafter, hmid, List.append_assoc, List.singleton_append]

/-- A list of values without repetitions can be deleted if all are held, each in one spelling. -/
theorem exists_foldlM_deleteValue (hattrs : Text.Distinct (attrs.values name))
    (hvs : Text.Distinct vs) (hheld : ∀ v ∈ vs, Text.holds (attrs.values name) v = true) :
    ∃ after, vs.foldlM (deleteValue dn name) attrs = .ok after ∧
      ∀ x, Text.holds (after.values name) x = true ↔
        Text.holds (attrs.values name) x = true ∧ ¬ Text.holds vs x = true := by
  induction vs generalizing attrs with
  | nil => exact ⟨attrs, rfl, fun x => by simp [Text.holds]⟩
  | cons v vs ih =>
    rw [List.forall_mem_cons] at hheld
    obtain ⟨hnot, hrest⟩ := List.nodup_cons.1 hvs
    have hdelete : deleteValue dn name attrs v = .ok (attrs.settle name
        ((attrs.values name).eraseP fun w => Text.same w v)) := if_pos hheld.1
    have hown := ((deleteValue_ok hdelete).2 name).trans (if_pos (Text.same_refl name))
    obtain ⟨after, hafter, hholds⟩ := ih (hown ▸ hattrs.eraseP v) hrest fun w hw => by
      rw [hown, hattrs.holds_eraseP]
      exact ⟨hheld.2 w hw, fun hsame => hnot (List.mem_map.2 ⟨w, hw, (Text.same_iff.1 hsame).symm⟩)⟩
    refine ⟨after, by rw [List.foldlM_cons, hdelete]; exact hafter, fun x => ?_⟩
    rw [hholds, hown, hattrs.holds_eraseP]
    simp only [Text.holds, List.any_cons, Bool.or_eq_true, not_or, Text.same_comm x v, and_assoc]

/-- Attributes as a modification that adds their values. -/
def additions (attrs : Attributes) : List Modification :=
  attrs.pairs.map fun (name, values) => ⟨.add, name, values⟩

/-- No two of the items are about one attribute. -/
def ItemsApart (items : List Modification) : Prop :=
  items.Pairwise fun a b => ¬ Text.same a.name b.name = true

theorem itemsApart_map (added : Attributes) (op : ModifyOp) :
    ItemsApart (added.pairs.map fun (name, values) => ⟨op, name, values⟩) := by
  have hkeys := added.distinct
  unfold AttributePairs.keys at hkeys
  refine List.pairwise_map.2 ((List.pairwise_map.1 hkeys).imp fun hne hsame => ?_)
  exact hne (Text.same_iff.1 hsame)

/-- Each of some items about different attributes finds and leaves its attribute as if it were the
only one. -/
theorem applyAll_apart_ok {items : List Modification} (hapart : ItemsApart items)
    (h : attrs.applyAll dn items = .ok after) {item : Modification} (hitem : item ∈ items) :
    ∃ now next : Attributes, now.apply dn item = .ok next ∧ now.values item.name = attrs.values item.name ∧
      after.values item.name = next.values item.name := by
  induction items generalizing attrs with
  | nil => cases hitem
  | cons first rest ih =>
    obtain ⟨hfirst, hapart⟩ := List.pairwise_cons.1 hapart
    obtain ⟨mid, happly, hrest⟩ := applyAll_cons.1 h
    rcases List.mem_cons.1 hitem with rfl | hlater
    · exact ⟨attrs, mid, happly, rfl, values_applyAll_of_ne hrest fun other hother hsame =>
        hfirst other hother (Text.same_symm hsame)⟩
    · obtain ⟨now, next, hnow, hbefore, hafter⟩ := ih hapart hrest hlater
      exact ⟨now, next, hnow, hbefore.trans (values_apply_of_ne happly (hfirst item hlater)), hafter⟩

/-- Items about different attributes that can each be carried out can be carried out together. -/
theorem exists_applyAll_apart {items : List Modification} (hapart : ItemsApart items)
    {P : Modification → List String → Prop}
    (h : ∀ item ∈ items, ∀ now : Attributes, now.values item.name = attrs.values item.name →
      ∃ next, now.apply dn item = .ok next ∧ P item (next.values item.name)) :
    ∃ after, attrs.applyAll dn items = .ok after ∧
      ∀ item ∈ items, P item (after.values item.name) := by
  induction items generalizing attrs with
  | nil => exact ⟨attrs, rfl, nofun⟩
  | cons first rest ih =>
    obtain ⟨hfirst, hapart⟩ := List.pairwise_cons.1 hapart
    rw [List.forall_mem_cons] at h
    obtain ⟨mid, happly, hmid⟩ := h.1 attrs rfl
    have hmids : ∀ item ∈ rest, ∀ now : Attributes, now.values item.name = mid.values item.name →
        ∃ next, now.apply dn item = .ok next ∧ P item (next.values item.name) :=
      fun item hitem now hnow =>
        h.2 item hitem now (hnow.trans (values_apply_of_ne happly (hfirst item hitem)))
    obtain ⟨after, hrest, hafter⟩ := ih hapart hmids
    refine ⟨after, applyAll_cons.2 ⟨mid, happly, hrest⟩, ?_⟩
    rw [List.forall_mem_cons]
    refine ⟨?_, hafter⟩
    rw [values_applyAll_of_ne hrest fun other hother hsame =>
      hfirst other hother (Text.same_symm hsame)]
    exact hmid

/-- Attributes that have been added were free of repetitions and new. -/
theorem applyAll_additions_ok {added : Attributes} (h : attrs.applyAll dn added.additions = .ok after)
    {pair : String × List String} (hpair : pair ∈ added.pairs) :
    Text.Distinct pair.2 ∧ (∀ v ∈ pair.2, ¬ Text.holds (attrs.values pair.1) v = true) ∧
      after.values pair.1 = attrs.values pair.1 ++ pair.2 := by
  obtain ⟨now, next, hitem, hnow, hnext⟩ := applyAll_apart_ok (itemsApart_map added .add) h
    (List.mem_map_of_mem hpair)
  dsimp only at hnow hnext
  rw [hnext, ← hnow]
  exact foldlM_addValue_ok hitem

/-- Values that are held can be deleted. -/
theorem exists_applyAll_deletions (dn : String) {removed : Attributes} (hfilled : removed.Filled)
    (hattrs : attrs.ValuesDistinct) (hremoved : removed.ValuesDistinct)
    (hheld : ∀ pair ∈ removed.pairs, ∀ v ∈ pair.2, Text.holds (attrs.values pair.1) v = true) :
    ∃ after, attrs.applyAll dn removed.deletions = .ok after ∧
      ∀ pair ∈ removed.pairs, ∀ v ∈ pair.2, ¬ Text.holds (after.values pair.1) v = true := by
  have hitems : ∀ item ∈ removed.deletions, ∀ now : Attributes,
      now.values item.name = attrs.values item.name → ∃ next, now.apply dn item = .ok next ∧
        ∀ v ∈ item.values, ¬ Text.holds (next.values item.name) v = true := by
    intro item hitem now hnow
    obtain ⟨pair, hpair, rfl⟩ := List.mem_map.1 hitem
    dsimp only at hnow ⊢
    obtain ⟨next, hnext, hgone⟩ : ∃ next, pair.2.foldlM (deleteValue dn pair.1) now = .ok next ∧
        ∀ x, Text.holds (next.values pair.1) x = true ↔
          Text.holds (now.values pair.1) x = true ∧ ¬ Text.holds pair.2 x = true :=
      exists_foldlM_deleteValue (hnow ▸ valuesDistinct_iff.1 hattrs pair.1) (hremoved pair hpair)
        (hnow ▸ hheld pair hpair)
    refine ⟨next, ?_, fun v hv hback => ((hgone v).1 hback).2 (Text.holds_of_mem hv)⟩
    exact (if_neg fun hempty => hfilled pair hpair (List.isEmpty_iff.1 hempty)).trans hnext
  obtain ⟨after, hafter, hgone⟩ := exists_applyAll_apart
    (P := fun item values => ∀ v ∈ item.values, ¬ Text.holds values v = true)
    (itemsApart_map removed .delete) hitems
  exact ⟨after, hafter, fun pair hpair => hgone _ (List.mem_map_of_mem hpair)⟩

end Attributes

/-! ## What is added -/

theorem Dn.isIn_congr {d d' : Dn} (h : d.key = d'.key) (ds : List Dn) : d.isIn ds = d'.isIn ds := by
  unfold Dn.isIn Dn.same
  rw [h]

theorem Dn.isIn_of_mem {d : Dn} {ds : List Dn} (h : d ∈ ds) : d.isIn ds = true :=
  List.any_eq_true.2 ⟨d, h, Dn.same_iff.2 rfl⟩

theorem Attributes.holds_values_iff {attrs : Attributes} {name value : String} :
    Text.holds (attrs.values name) value = true ↔
      ∃ pair ∈ attrs.pairs, Text.same pair.1 name = true ∧ Text.holds pair.2 value = true := by
  constructor
  · intro h
    cases hget : attrs.get? name with
    | none =>
      rw [values, hget] at h
      cases h
    | some values =>
      obtain ⟨other, hmem, hname⟩ := AttributePairs.mem_of_get? hget
      refine ⟨_, hmem, hname, ?_⟩
      rwa [Attributes.values, hget] at h
  · rintro ⟨pair, hpair, hname, hvalue⟩
    rwa [values_of_mem hpair hname]

namespace Provisioner

variable {p : Provisioner} {dn : Dn} {e : Entry} {dir now after : Directory} {input : Input}
  {kind : MembershipKind}

/-- What an addition brings into the entry at a name: the listed values, if it is the entry that it is
about, and the reference of this entry, if it is one of the groups listed for a kind. -/
def extras (p : Provisioner) (dn : Dn) (e : Entry) (input : Input) (x : Dn) : Extras where
  values name := (if x.key = dn.key then input.ordinary.values name else []) ++
    p.gained input.requests (p.ownReference dn e) name x
  congr {a b} h := by
    have hmember (kind : MembershipKind) : Text.same (p.descriptor kind).memberAttribute a =
        Text.same (p.descriptor kind).memberAttribute b := by
      unfold Text.same
      rw [Text.same_iff.1 h]
    unfold gained gains
    simp only [input.ordinary.values_congr h, hmember]

theorem has_extras_iff {x : Dn} {name value : String} :
    (p.extras dn e input x).has name value = true ↔
      (x.key = dn.key ∧ Text.holds (input.ordinary.values name) value = true) ∨
        ∃ kind, Text.same (p.descriptor kind).memberAttribute name = true ∧
          x.isIn (input.requests.get kind).groups = true ∧
          Text.same (p.ownReference dn e kind) value = true := by
  have hgained : Text.holds (p.gained input.requests (p.ownReference dn e) name x) value = true ↔
      ∃ kind, Text.same (p.descriptor kind).memberAttribute name = true ∧
        x.isIn (input.requests.get kind).groups = true ∧
        Text.same (p.ownReference dn e kind) value = true := by
    simp only [Text.holds_iff, gained, List.mem_flatMap, gains, Text.same_iff]
    constructor
    · rintro ⟨r, ⟨kind, -, hr⟩, hsame⟩
      split at hr
      · next hboth =>
        rw [List.mem_singleton.1 hr] at hsame
        exact ⟨kind, hboth.1, hboth.2, hsame⟩
      · cases hr
    · rintro ⟨kind, hname, hin, hsame⟩
      refine ⟨_, ⟨kind, kind.mem_all, ?_⟩, hsame⟩
      rw [if_pos ⟨hname, hin⟩]
      exact List.mem_singleton_self _
  rw [Extras.has, extras, Text.holds, List.any_append, Bool.or_eq_true]
  refine or_congr ?_ hgained
  split
  · next hkey => simp only [hkey, true_and, Text.holds]
  · next hkey => simp [hkey]

/-- Adding this input to the entry at a name can be taken back. -/
structure Reversible (p : Provisioner) (dn : Dn) (e : Entry) (dir : Directory) (input : Input) :
    Prop where
  kinds (kind other : MembershipKind) : kind ≠ other →
    ¬ Text.same (p.descriptor kind).memberAttribute (p.descriptor other).memberAttribute = true
  denied : dir.denied = []
  tidy : dir.Tidy
  password : input.password = none
  resetPassword : input.resetPassword = false
  filled : input.ordinary.Filled
  timeStamp : input.ordinary.get? "modifyTimestamp" = none
  members (kind : MembershipKind) : input.ordinary.get? (p.descriptor kind).memberAttribute = none
  references (kind : MembershipKind) (name : String) :
    (p.descriptor kind).reference = .valueOf name → input.ordinary.get? name = none
  /-- No group is listed twice for a kind. -/
  once (kind : MembershipKind) :
    (input.requests.get kind).groups.Pairwise fun a b => ¬ a.same b = true
  inScope (kind : MembershipKind) (group : Entry) : group ∈ dir.entries.list →
    group.dn.isIn (input.requests.get kind).groups = true → p.InScope group.dn
  /-- The listed groups hold no reference of the entry yet. -/
  unheld (kind : MembershipKind) : ∀ group ∈ (input.requests.get kind).groups,
    ∀ r ∈ (p.descriptor kind).ownReferences dn e,
      ¬ dir.HoldsAt (p.descriptor kind).memberAttribute group r
  /-- The server does not overwrite what is written into the listed groups. -/
  memberStamp (kind : MembershipKind) : (input.requests.get kind).groups ≠ [] →
    ¬ Text.same "modifyTimestamp" (p.descriptor kind).memberAttribute = true
  /-- The references of the entry are not written by the server. -/
  referenceStamp (kind : MembershipKind) (name : String) : (input.requests.get kind).groups ≠ [] →
    (p.descriptor kind).reference = .valueOf name → ¬ Text.same name "modifyTimestamp" = true
  /-- Nor are they written as members of the entry, where it is listed as a group itself. -/
  referenceMember (kind other : MembershipKind) (name : String) :
    (input.requests.get kind).groups ≠ [] → (p.descriptor kind).reference = .valueOf name →
      dn.isIn (input.requests.get other).groups = true →
        ¬ Text.same (p.descriptor other).memberAttribute name = true

namespace Reversible

theorem member_not_stamp (h : p.Reversible dn e dir input) {x : Dn}
    (hin : x.isIn (input.requests.get kind).groups = true) :
    ¬ Text.same (p.descriptor kind).memberAttribute "modifyTimestamp" = true := by
  refine fun hsame => h.memberStamp kind (fun hnone => ?_) (Text.same_symm hsame)
  rw [hnone] at hin
  cases hin

theorem listed_not_stamp (h : p.Reversible dn e dir input) {pair : String × List String}
    (hpair : pair ∈ input.ordinary.pairs) : ¬ Text.same pair.1 "modifyTimestamp" = true := by
  intro hsame
  have hget := AttributePairs.get?_of_mem input.ordinary.distinct hpair hsame
  cases hget.symm.trans h.timeStamp

/-- The item of one membership in a listed group is one of those that can be taken back. -/
theorem keeps_alikeBut_member (h : p.Reversible dn e dir input) {op : ModifyOp} (hop : op ≠ .replace)
    {m : GroupMembership} (hin : m.group.isIn (input.requests.get kind).groups = true)
    (href : Text.same (p.ownReference dn e kind) m.reference = true) :
    Keeps (AlikeBut (p.extras dn e input)) (Directory.modify p.supply m.group
      [⟨op, (p.descriptor kind).memberAttribute, [m.reference]⟩]) := by
  refine keeps_alikeBut_modify ?_ fun x hkey => ?_
  · rw [List.forall_mem_singleton]
    exact h.member_not_stamp hin
  · rw [List.forall_mem_singleton]
    refine ⟨hop, List.cons_ne_nil _ _, ?_⟩
    rw [List.forall_mem_singleton, has_extras_iff]
    exact .inr ⟨kind, Text.same_refl _, Dn.isIn_congr hkey _ ▸ hin, href⟩

/-- The items of the listed values are such too. -/
theorem keeps_alikeBut_values (h : p.Reversible dn e dir input) {op : ModifyOp} (hop : op ≠ .replace) :
    Keeps (AlikeBut (p.extras dn e input)) (p.modifyValues dn op input.ordinary) := by
  refine (alikeBut_frame _).keeps_sendItems (keeps_alikeBut_modify ?_ fun x hkey => ?_)
  · rw [List.forall_mem_map]
    exact fun pair hpair => h.listed_not_stamp hpair
  · rw [List.forall_mem_map]
    intro pair hpair
    refine ⟨hop, h.filled pair hpair, fun v hv => has_extras_iff.2 (.inl ⟨hkey.symm, ?_⟩)⟩
    exact Attributes.holds_values_iff.2 ⟨pair, hpair, Text.same_refl _, Text.holds_of_mem hv⟩

end Reversible

end Provisioner

/-! ## The addition -/

/-- Between two moments values that are singled out have been added, and nothing else has changed. -/
structure Grows (singled : Dn → Extras) (dir after : Directory) : Prop where
  alike : AlikeBut singled dir after
  gains : Gains dir after
  tidy : StaysTidy dir after

theorem grows_frame (singled : Dn → Extras) : Frame (Grows singled) where
  refl dir := ⟨(alikeBut_frame singled).refl dir, gains_frame.refl dir, staysTidy_frame.refl dir⟩
  trans hab hbc := ⟨(alikeBut_frame singled).trans hab.alike hbc.alike,
    gains_frame.trans hab.gains hbc.gains, staysTidy_frame.trans hab.tidy hbc.tidy⟩

theorem Directory.Unwritten.grows {singled : Dn → Extras} {dir after : Directory}
    (h : dir.Unwritten after) : Grows singled dir after where
  alike := h.alikeBut
  tidy := h.staysTidy
  gains _ _ _ _ hheld := h.holdsAt_iff.2 hheld

/-- A membership that has been added is there. -/
theorem KindDescriptor.holdsAt_of_addMembership {d : KindDescriptor} {supply : Supply}
    {m : GroupMembership} {dir after : Directory}
    (hstamp : ¬ Text.same "modifyTimestamp" d.memberAttribute = true)
    (hrun : dir.run (d.addMembership supply m) = (.ok (), after)) :
    after.HoldsAt d.memberAttribute m.group m.reference := by
  obtain ⟨group, hgroup⟩ := stored_of_addMembership hrun
  have halters : Alters m.group d.memberAttribute _ dir after :=
    alters_addMembership hstamp hrun
  obtain ⟨group', hgroup', hvalues⟩ := halters.stored hgroup
  rw [Directory.holdsAt_iff hgroup', hvalues, if_pos rfl]
  have hadded : m.reference ∈ [m.reference] := List.mem_singleton_self _
  exact Provisioner.holds_foldl_addNew (.inr hadded)

namespace Provisioner

variable {p : Provisioner} {dn : Dn} {e e' : Entry} {dir now after : Directory} {input : Input}
  {kind : MembershipKind}

/-- Groups are joined under the least reference that the entry has. -/
theorem joinGroups_ok {requests : GroupRequests} (hlisted : (requests.get kind).groups ≠ [])
    (hentry : dir.entry? dn = some e)
    (hrun : dir.run (p.joinGroups dn requests kind) = (.ok (), after)) :
    ∃ reference mid, dir.Unwritten mid ∧
      canonicalReference? ((p.referencesOf kind dn e).getD []) = some reference ∧
      mid.run ((p.descriptor kind).addMemberships p.supply reference (requests.get kind).groups) =
        (.ok (), after) := by
  unfold joinGroups at hrun
  dsimp only at hrun
  rw [if_neg fun hempty => hlisted (List.isEmpty_iff.1 hempty)] at hrun
  obtain ⟨found, read, hread, hrest⟩ := Directory.run_bind_ok.1 hrun
  obtain ⟨reference, mid, hrequire, hjoin⟩ := Directory.run_bind_ok.1 hrest
  have hreads : dir.entry? dn = some e ∨ dir.entry? dn = none := .inl hentry
  obtain ⟨_, hquiet, hfound | ⟨hmissing, -⟩⟩ := (p.descriptor kind).run_readReferenceValues hreads
  · cases hfound.symm.trans (Directory.run_lift_ok hread)
    have hquiet' := (p.keeps_unwritten_requireCanonical kind dn _).of_run hrequire
    have hcanonical := (p.ends_requireCanonical_least kind dn _).of_run_ok hrequire
    refine ⟨reference, mid, unwritten_frame.trans hquiet hquiet', ?_, Directory.run_lift_ok hjoin⟩
    obtain ⟨references, hreferences, hleast⟩ := Option.bind_eq_some_iff.1 hcanonical
    rw [referencesOf, hreferences]
    exact hleast
  · cases hentry.symm.trans hmissing

/-- The listed groups of a kind hold the reference, and the entry has it. -/
def HasJoined (p : Provisioner) (dn : Dn) (e : Entry) (input : Input)
    (after : Directory) (kind : MembershipKind) : Prop :=
  ∀ group ∈ (input.requests.get kind).groups,
    canonicalReference? ((p.referencesOf kind dn e).getD []) = some (p.ownReference dn e kind) ∧
      after.HoldsAt (p.descriptor kind).memberAttribute group (p.ownReference dn e kind)

namespace Reversible

variable (h : p.Reversible dn e dir input)

include h

theorem keeps_grows_addMembership {m : GroupMembership}
    (hin : m.group.isIn (input.requests.get kind).groups = true)
    (href : Text.same (p.ownReference dn e kind) m.reference = true) :
    Keeps (Grows (p.extras dn e input)) ((p.descriptor kind).addMembership p.supply m) := by
  have hadd : ModifyOp.add ≠ .replace := nofun
  have halike := (alikeBut_frame (p.extras dn e input)).keeps_addMembership
    (h.keeps_alikeBut_member hadd hin href)
  have hgains : Keeps Gains ((p.descriptor kind).addMembership p.supply m) :=
    gains_frame.keeps_addMembership (keeps_gains_modify (by simp))
  exact fun dir => ⟨halike dir, hgains dir, (staysTidy_membershipFrame p).add kind m dir⟩

theorem keeps_grows_values :
    Keeps (Grows (p.extras dn e input)) (p.modifyValues dn .add input.ordinary) := by
  have hadd : ModifyOp.add ≠ .replace := nofun
  have halike := h.keeps_alikeBut_values hadd
  have hitems : ∀ item ∈ input.ordinary.additions, item.op = .add := by
    rw [Attributes.additions, List.forall_mem_map]
    exact fun _ _ => rfl
  have hgains : Keeps Gains (p.modifyValues dn .add input.ordinary) :=
    gains_frame.keeps_sendItems (keeps_gains_modify hitems)
  have htidy : Keeps StaysTidy (p.modifyValues dn .add input.ordinary) :=
    staysTidy_frame.keeps_sendItems (keeps_staysTidy_modify fun item hitem hop =>
      by cases (hitems item hitem).symm.trans hop)
  exact fun dir => ⟨halike dir, hgains dir, htidy dir⟩

/-- The references of the entry stay the same. -/
theorem referencesOf_eq (hlisted : (input.requests.get kind).groups ≠ [])
    (hentry : dir.entry? dn = some e) (halike : AlikeBut (p.extras dn e input) dir now)
    (hentry' : now.entry? dn = some e') :
    (p.referencesOf kind dn e').getD [] = (p.referencesOf kind dn e).getD [] := by
  cases hreference : (p.descriptor kind).reference with
  | name => simp only [referencesOf, KindDescriptor.referencesOf, hreference]
  | valueOf name =>
    have hgained : p.gained input.requests (p.ownReference dn e) name dn = [] := by
      refine List.flatMap_eq_nil_iff.2 fun other _ => if_neg ?_
      exact fun hboth => h.referenceMember kind other name hlisted hreference hboth.2 hboth.1
    have hnone : (p.extras dn e input dn).values name = [] := by
      unfold extras Attributes.values
      simp only [hgained, if_pos, h.references kind name hreference, Option.getD_none,
        List.append_nil]
    have hvalues := halike.valuesAt_eq (h.referenceStamp kind name hlisted hreference) hnone
    rw [Directory.valuesAt_of_entry? hentry, Directory.valuesAt_of_entry? hentry'] at hvalues
    have hvalues' (e : Entry) : (p.referencesOf kind dn e).getD [] =
        OrderedSet.insertAll [] (e.attributes.values name) := by
      rw [referencesOf, KindDescriptor.referencesOf_valueOf hreference,
        KindDescriptor.referenceValues_none hreference, Attributes.values]
      cases e.attributes.get? name <;> rfl
    rw [hvalues', hvalues', hvalues]

/-- Listed groups hold the reference once they have been joined. -/
theorem grows_addMemberships {groups : List Dn}
    (hgroups : ∀ group ∈ groups, group ∈ (input.requests.get kind).groups)
    (hrun : now.run ((p.descriptor kind).addMemberships p.supply (p.ownReference dn e kind) groups) =
      (.ok (), after)) :
    Grows (p.extras dn e input) now after ∧ ∀ group ∈ groups,
      after.HoldsAt (p.descriptor kind).memberAttribute group (p.ownReference dn e kind) := by
  induction groups generalizing now with
  | nil =>
    cases hrun
    exact ⟨(grows_frame _).refl _, nofun⟩
  | cons group rest ih =>
    obtain ⟨_, mid, hfirst, hrest⟩ := Directory.run_bind_ok.1 hrun
    rw [List.forall_mem_cons] at hgroups
    have hin : group.isIn (input.requests.get kind).groups = true := Dn.isIn_of_mem hgroups.1
    have hstamp := h.member_not_stamp hin
    have hjoin : Keeps (Grows (p.extras dn e input))
        ((p.descriptor kind).addMembership p.supply ⟨p.ownReference dn e kind, group⟩) :=
      h.keeps_grows_addMembership hin (Text.same_refl _)
    have hheld : mid.HoldsAt (p.descriptor kind).memberAttribute group (p.ownReference dn e kind) :=
      KindDescriptor.holdsAt_of_addMembership (fun hsame => hstamp (Text.same_symm hsame)) hfirst
    obtain ⟨hlater, hothers⟩ := ih hgroups.2 hrest
    rw [List.forall_mem_cons]
    exact ⟨(grows_frame _).trans (hjoin.of_run hfirst) hlater,
      hlater.gains group _ _ hstamp hheld, hothers⟩

/-- All listed groups have been joined. -/
theorem grows_joinAll (hentry : dir.entry? dn = some e) {kinds : List MembershipKind}
    (hnow : Grows (p.extras dn e input) dir now)
    (hrun : now.run (kinds.forM (p.joinGroups dn input.requests)) = (.ok (), after)) :
    Grows (p.extras dn e input) now after ∧ ∀ kind ∈ kinds, p.HasJoined dn e input after kind := by
  induction kinds generalizing now with
  | nil =>
    cases hrun
    exact ⟨(grows_frame _).refl _, nofun⟩
  | cons kind rest ih =>
    obtain ⟨_, mid, hfirst, hrest⟩ := Directory.run_bind_ok.1 hrun
    have hkind : Grows (p.extras dn e input) now mid ∧ p.HasJoined dn e input mid kind := by
      by_cases hlisted : (input.requests.get kind).groups = []
      · unfold joinGroups at hfirst
        dsimp only at hfirst
        rw [hlisted] at hfirst
        cases hfirst
        refine ⟨(grows_frame _).refl _, fun group hgroup => ?_⟩
        rw [hlisted] at hgroup
        cases hgroup
      · obtain ⟨e', hentry', -⟩ := hnow.alike.exists_entry hentry
        obtain ⟨reference, read, hquiet, hleast, hjoin⟩ := joinGroups_ok hlisted hentry' hfirst
        rw [h.referencesOf_eq hlisted hentry hnow.alike hentry'] at hleast
        have hown : p.ownReference dn e kind = reference := by rw [ownReference, hleast]; rfl
        subst hown
        obtain ⟨hmid, hheld⟩ := h.grows_addMemberships (fun _ hgroup => hgroup) hjoin
        exact ⟨(grows_frame _).trans hquiet.grows hmid,
          fun group hgroup => ⟨hleast, hheld group hgroup⟩⟩
    obtain ⟨hlater, hothers⟩ := ih ((grows_frame _).trans hnow hkind.1) hrest
    rw [List.forall_mem_cons]
    refine ⟨(grows_frame _).trans hkind.1 hlater, fun group hgroup => ?_, hothers⟩
    obtain ⟨hleast, hheld⟩ := hkind.2 group hgroup
    have hstamp := h.member_not_stamp (Dn.isIn_of_mem hgroup)
    exact ⟨hleast, hlater.gains group _ _ hstamp hheld⟩

/-- Listed values that have been added were new, and are there. -/
theorem grows_values (hrun : now.run (p.modifyValues dn .add input.ordinary) = (.ok (), after))
    {pair : String × List String} (hpair : pair ∈ input.ordinary.pairs) :
    Text.Distinct pair.2 ∧
      ∀ v ∈ pair.2, ¬ now.HoldsAt pair.1 dn v ∧ after.HoldsAt pair.1 dn v := by
  rcases run_sendItems_ok hrun with ⟨hempty, -⟩ | hmodify
  · rw [List.map_eq_nil_iff.1 hempty] at hpair
    cases hpair
  · obtain ⟨-, e, attrs, hentry, happly, hafter⟩ := Directory.run_modify_ok hmodify
    obtain ⟨hdistinct, hnew, hvalues⟩ := Attributes.applyAll_additions_ok happly hpair
    have hentry' : after.entry? dn =
        some ⟨e.dn, attrs.put "modifyTimestamp" [p.supply.time now.handled]⟩ := by
      rw [hafter]
      exact (Entries.get?_insert_stamped hentry _ dn).trans (if_pos rfl)
    refine ⟨hdistinct, fun v hv => ?_⟩
    rw [Directory.holdsAt_iff hentry, Directory.holdsAt_iff hentry']
    refine ⟨hnew v hv, ?_⟩
    rw [Attributes.values_put, if_neg fun hsame => h.listed_not_stamp hpair (Text.same_symm hsame)]
    rw [hvalues]
    exact Text.holds_of_mem (List.mem_append_right _ hv)

end Reversible

/-- What an addition that can be taken back has done. -/
structure Adds (p : Provisioner) (dn : Dn) (e : Entry) (input : Input) (dir after : Directory) :
    Prop where
  grows : Grows (p.extras dn e input) dir after
  denied : after.denied = []
  values (pair : String × List String) : pair ∈ input.ordinary.pairs → Text.Distinct pair.2 ∧
    ∀ v ∈ pair.2, ¬ dir.HoldsAt pair.1 dn v ∧ after.HoldsAt pair.1 dn v
  joined (kind : MembershipKind) : p.HasJoined dn e input after kind

theorem Reversible.adds (h : p.Reversible dn e dir input) {entryClass : EntryClass}
    {uid uid' : String} {attributes : List InputAttribute}
    (hresolve : (dir.run (p.resolve entryClass uid)).1 = .ok dn) (hentry : dir.entry? dn = some e)
    (hinput : Input.partition .values attributes = .ok input)
    (hrun : dir.run (p.addValues entryClass uid attributes) = (.ok uid', after)) :
    p.Adds dn e input dir after := by
  have hdenied := ((p.keeps_logged_addValues entryClass uid attributes).of_run hrun).1
  unfold addValues at hrun
  obtain ⟨_, resolved, hresolved, hrest⟩ := Directory.run_bind_ok.1 hrun
  cases (congrArg Prod.fst hresolved).symm.trans hresolve
  rw [hinput, run_ofInput_sorted, ← bind_assoc] at hrest
  obtain ⟨stored, hashed, hstored, hrest⟩ := Directory.run_bind_ok.1 hrest
  obtain ⟨_, sent, hvalues, hrest⟩ := Directory.run_bind_ok.1 hrest
  obtain ⟨_, written, hpassword, hrest⟩ := Directory.run_bind_ok.1 hrest
  obtain ⟨_, joined, hjoin, hend⟩ := Directory.run_bind_ok.1 hrest
  cases hend
  obtain ⟨rfl, hstores⟩ := stores_of_run hstored
  have hstored' : stored = none := by
    rwa [Stores, chosenPassword, h.resetPassword, h.password] at hstores
  subst hstored'
  cases hpassword
  have hquiet := (p.keeps_unwritten_resolve entryClass uid).of_run hresolved
  have hsent : Grows (p.extras dn e input) dir sent :=
    (grows_frame _).trans hquiet.grows (h.keeps_grows_values.of_run hvalues)
  obtain ⟨hlater, hjoined⟩ := h.grows_joinAll hentry hsent hjoin
  refine ⟨(grows_frame _).trans hsent hlater, hdenied.trans h.denied, fun pair hpair => ?_,
    fun kind => hjoined kind kind.mem_all⟩
  obtain ⟨hdistinct, hheld⟩ := h.grows_values hvalues hpair
  refine ⟨hdistinct, fun v hv => ?_⟩
  obtain ⟨hnew, hthere⟩ := hheld v hv
  have hname := h.listed_not_stamp hpair
  have hfound : Grows (p.extras dn e input) dir hashed := hquiet.grows
  exact ⟨fun hold => hnew (hfound.gains dn _ _ hname hold), hlater.gains dn _ _ hname hthere⟩

end Provisioner

end Roster
