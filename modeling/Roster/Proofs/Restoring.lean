import Roster.Proofs.Additions
import Roster.Proofs.Removals

/-!
# Taking back what was added

Removing the values and memberships that an addition has brought in leads back to the directory from
before, in the order of attributes and values too (`removeValues_restores`). Neither operation touches
anything but these values, which the directory holds neither before the first nor after the second.
The addition goes by the least reference of the entry and the removal searches for all of them, so the
memberships that end have to be shown to be those that began (`TakesBack`). What `Reversible` asks
about time stamps, and about entries that are listed as groups, cannot be left out
(`additions_not_taken_back`).
-/

namespace Roster

open Directory (Unwritten unwritten_frame Touched)

namespace Provisioner

variable {p : Provisioner} {dn : Dn} {e e' : Entry} {dir now after : Directory} {input : Input}
  {kind : MembershipKind} {memberships : List GroupMembership}

/-! ## The memberships that end -/

/-- Memberships whose end takes the reference of the entry out of the listed groups of a kind. -/
structure TakesBack (p : Provisioner) (dn : Dn) (e : Entry) (input : Input) (now : Directory)
    (kind : MembershipKind) (memberships : List GroupMembership) : Prop where
  listed (m : GroupMembership) : m ∈ memberships →
    m.group.isIn (input.requests.get kind).groups = true ∧
      Text.same (p.ownReference dn e kind) m.reference = true
  held (m : GroupMembership) : m ∈ memberships →
    now.HoldsAt (p.descriptor kind).memberAttribute m.group m.reference
  apart : memberships.Pairwise fun a b => ¬ a.Covers b.group b.reference
  whole (x : Dn) : x.isIn (input.requests.get kind).groups = true →
    ∃ m ∈ memberships, m.Covers x (p.ownReference dn e kind)

namespace Reversible

variable (h : p.Reversible dn e dir input)

include h

theorem takesBack_touched {sort : String → Prop}
    (hback : p.TakesBack dn e input now kind memberships) (htouched : Touched sort now after)
    (hsort : ¬ sort (p.descriptor kind).memberAttribute) :
    p.TakesBack dn e input after kind memberships where
  listed := hback.listed
  held m hm := by
    have hstamp := h.member_not_stamp (hback.listed m hm).1
    unfold Directory.HoldsAt
    rw [htouched.others _ _ hsort fun hsame => hstamp (Text.same_symm hsame)]
    exact hback.held m hm
  apart := hback.apart
  whole := hback.whole

/-- The name of the entry is taken out of each listed group. -/
theorem takesBack_static (hadds : p.Adds dn e input dir after) :
    p.TakesBack dn e input after .static
      ((input.requests.get .static).groups.map fun group => ⟨dn.text, group⟩) where
  listed := by
    rw [List.forall_mem_map]
    exact fun group hgroup => ⟨Dn.isIn_of_mem hgroup, Text.same_refl _⟩
  held := by
    rw [List.forall_mem_map]
    exact fun group hgroup => (hadds.joined .static group hgroup).2
  apart := List.pairwise_map.2
    ((h.once .static).imp fun hne hcovers => hne (Dn.same_iff.2 hcovers.1))
  whole x hin := by
    obtain ⟨group, hgroup, hsame⟩ := List.any_eq_true.1 hin
    exact ⟨_, List.mem_map_of_mem hgroup, (Dn.same_iff.1 hsame).symm, Text.same_refl _⟩

/-- The memberships that are found in the listed groups are those that have begun. -/
theorem takesBack_membershipsIn (hadds : p.Adds dn e input dir after)
    (hentry : dir.entry? dn = some e) (hentry' : after.entry? dn = some e') :
    p.TakesBack dn e input after kind
      (p.membershipsIn input.requests kind dn e' after.entries) := by
  by_cases hlisted : (input.requests.get kind).groups = []
  · have hnone : p.membershipsIn input.requests kind dn e' after.entries = [] := by
      refine List.filter_eq_nil_iff.2 fun m _ => ?_
      rw [hlisted]
      exact Bool.false_ne_true
    rw [hnone]
    refine ⟨nofun, nofun, List.Pairwise.nil, fun x hin => ?_⟩
    rw [hlisted] at hin
    cases hin
  have hreferences := h.referencesOf_eq hlisted hentry hadds.grows.alike hentry'
  have htidy := hadds.grows.tidy h.tidy
  have hheld : ∀ m ∈ p.membershipsIn input.requests kind dn e' after.entries,
      after.HoldsAt (p.descriptor kind).memberAttribute m.group m.reference :=
    fun m hm => holdsAt_of_mem_membershipsOf (mem_membershipsIn.1 hm).1
  refine ⟨fun m hm => ?_, hheld, ?_, fun x hin => ?_⟩
  · obtain ⟨hm', hin⟩ := mem_membershipsIn.1 hm
    refine ⟨hin, Classical.byContradiction fun hother => ?_⟩
    -- A value that the addition has not brought in was there before it.
    have hextra : (p.extras dn e input m.group).has (p.descriptor kind).memberAttribute
        m.reference = false := by
      rw [Bool.eq_false_iff, Ne, has_extras_iff]
      rintro (⟨-, hvalue⟩ | ⟨other, hname, -, hsame⟩)
      · rw [Attributes.values, h.members kind] at hvalue
        cases hvalue
      · by_cases hkind : other = kind
        · exact hother (hkind ▸ hsame)
        · exact h.kinds other kind hkind hname
    have hbefore := hadds.grows.alike.holdsAt (h.member_not_stamp hin) hextra (hheld m hm)
    have hown := reference_of_mem_membershipsOf hm'
    rw [hreferences] at hown
    obtain ⟨group, hgroup, hsame⟩ := List.any_eq_true.1 hin
    refine h.unheld kind group hgroup m.reference (KindDescriptor.mem_ownReferences.2 hown) ?_
    exact (dir.holdsAt_congr (Dn.same_iff.1 hsame) (Text.same_refl _) (Text.same_refl _)).1 hbefore
  · refine ((OrderedSet.pairwise_insertAll List.Pairwise.nil _).filter _).imp_of_mem ?_
    intro a b ha hb hne hcovers
    have hdistinct := (htidy e' (after.entries.get?_eq_some_iff.1 hentry').1).2
    have heq : a.reference = b.reference := KindDescriptor.eq_of_same_references
      (Attributes.valuesDistinct_iff.1 hdistinct)
      (reference_of_mem_membershipsOf (mem_membershipsIn.1 ha).1)
      (reference_of_mem_membershipsOf (mem_membershipsIn.1 hb).1) hcovers.2
    rw [GroupMembership.beq_iff.2 ⟨heq, hcovers.1⟩] at hne
    cases hne
  · obtain ⟨group, hgroup, hsame⟩ := List.any_eq_true.1 hin
    obtain ⟨hleast, hjoined⟩ := hadds.joined kind group hgroup
    have hthere : after.HoldsAt (p.descriptor kind).memberAttribute x (p.ownReference dn e kind) :=
      (after.holdsAt_congr (Dn.same_iff.1 hsame) (Text.same_refl _) (Text.same_refl _)).2 hjoined
    obtain ⟨x', hx', -⟩ := Directory.exists_entry_of_holdsAt hthere
    obtain ⟨old, hold, hname⟩ := hadds.grows.alike.symm.exists_entry hx'
    have hscope : p.InScope x'.dn := by
      obtain ⟨hmem, hkey⟩ := dir.entries.get?_eq_some_iff.1 hold
      rw [← hname]
      exact h.inScope kind old hmem (Dn.isIn_congr hkey _ ▸ hin)
    have hown : p.ownReference dn e kind ∈ (p.descriptor kind).ownReferences dn e' := by
      rw [KindDescriptor.mem_ownReferences]
      exact hreferences ▸ mem_of_canonicalReference? hleast
    obtain ⟨m, hm, hcovers⟩ := (exists_covers_iff hthere).2
      ⟨⟨x', hx', hscope⟩, _, hown, Text.same_refl _⟩
    exact ⟨m, mem_membershipsIn.2 ⟨hm, Dn.isIn_congr hcovers.1 _ ▸ hin⟩, hcovers⟩

/-! ## The removal -/

/-- The end of the memberships of a kind succeeds, and only takes the reference out. -/
theorem run_takesBack (hback : p.TakesBack dn e input now kind memberships)
    (hdenied : now.denied = []) (htidy : now.Tidy) :
    ∃ after, now.run (liftM ((p.descriptor kind).removeMemberships p.supply memberships) :
        Action Unit) = (.ok (), after) ∧
      Touched (fun name => Text.same (p.descriptor kind).memberAttribute name = true) now after ∧
      AlikeBut (p.extras dn e input) now after ∧
      ∀ x, x.isIn (input.requests.get kind).groups = true →
        ¬ after.HoldsAt (p.descriptor kind).memberAttribute x (p.ownReference dn e kind) := by
  cases hmemberships : memberships with
  | nil =>
    refine ⟨now, rfl, (Directory.touched_frame _).refl now, (alikeBut_frame _).refl now, ?_⟩
    intro x hin
    obtain ⟨m, hm, -⟩ := hback.whole x hin
    rw [hmemberships] at hm
    cases hm
  | cons first rest =>
    have hfirst := hback.listed first (hmemberships ▸ List.mem_cons_self)
    have hstamp := h.member_not_stamp hfirst.1
    obtain ⟨after, hrun, hafter⟩ := KindDescriptor.run_removeMemberships p.supply
      (fun hsame => hstamp (Text.same_symm hsame)) hdenied (fun x => htidy.valuesAt x _)
      hback.held hback.apart
    rw [← hmemberships]
    have hdelete : ModifyOp.delete ≠ .replace := nofun
    have halike : Keeps (AlikeBut (p.extras dn e input))
        ((p.descriptor kind).removeMemberships p.supply memberships) :=
      (alikeBut_frame _).keeps_forM fun m hm =>
        h.keeps_alikeBut_member hdelete (hback.listed m hm).1 (hback.listed m hm).2
    refine ⟨after, Directory.run_lift_of_ok hrun, hafter.touched, halike.of_run hrun,
      fun x hin hheld => ?_⟩
    exact ((hafter.holds _ _).1 hheld).2 (hback.whole x hin)

/-- The memberships of several kinds end one kind after the other. -/
theorem run_takesAllBack {kinds : List MembershipKind} (honce : kinds.Nodup)
    {ending : MembershipKind → List GroupMembership}
    (hback : ∀ kind ∈ kinds, p.TakesBack dn e input now kind (ending kind))
    (hdenied : now.denied = []) (htidy : now.Tidy) :
    ∃ after, now.run (kinds.forM fun kind => (liftM ((p.descriptor kind).removeMemberships p.supply
        (ending kind)) : Action Unit)) = (.ok (), after) ∧
      Touched (fun name => ∃ kind ∈ kinds, Text.same (p.descriptor kind).memberAttribute name = true)
        now after ∧
      AlikeBut (p.extras dn e input) now after ∧ after.Tidy ∧
      ∀ kind ∈ kinds, ∀ x, x.isIn (input.requests.get kind).groups = true →
        ¬ after.HoldsAt (p.descriptor kind).memberAttribute x (p.ownReference dn e kind) := by
  induction kinds generalizing now with
  | nil =>
    exact ⟨now, rfl, (Directory.touched_frame _).refl now, (alikeBut_frame _).refl now, htidy, nofun⟩
  | cons kind rest ih =>
    rw [List.forall_mem_cons] at hback
    rw [List.nodup_cons] at honce
    have hapart (other : MembershipKind) (hother : other ∈ rest) :
        ¬ Text.same (p.descriptor other).memberAttribute (p.descriptor kind).memberAttribute = true :=
      h.kinds other kind fun heq => honce.1 (heq ▸ hother)
    obtain ⟨mid, hfirst, htouched, halike, hgone⟩ := h.run_takesBack hback.1 hdenied htidy
    have htidy' : StaysTidy now mid :=
      (((staysTidy_membershipFrame p).keeps_removeMemberships kind _).lift).of_run hfirst
    have hstill : ∀ other ∈ rest, p.TakesBack dn e input mid other (ending other) :=
      fun other hother => h.takesBack_touched (hback.2 other hother) htouched fun hsame =>
        hapart other hother (Text.same_symm hsame)
    obtain ⟨after, hrest, htouched', halike', htidy'', hgone'⟩ :=
      ih honce.2 hstill (htouched.denied.trans hdenied) (htidy' htidy)
    refine ⟨after, Directory.run_bind_ok.2 ⟨(), mid, hfirst, hrest⟩,
      (Directory.touched_frame _).trans (htouched.mono fun name hname => ?_)
        (htouched'.mono fun name hname => ?_),
      (alikeBut_frame _).trans halike halike', htidy'', ?_⟩
    · exact ⟨kind, List.mem_cons_self, hname⟩
    · obtain ⟨other, hother, hsame⟩ := hname
      exact ⟨other, List.mem_cons_of_mem kind hother, hsame⟩
    · rw [List.forall_mem_cons]
      refine ⟨fun x hin hheld => hgone x hin ?_, hgone'⟩
      have hstamp := h.member_not_stamp hin
      unfold Directory.HoldsAt at hheld ⊢
      rwa [htouched'.others _ _ (fun ⟨other, hother, hsame⟩ => hapart other hother hsame)
        fun hsame => hstamp (Text.same_symm hsame)] at hheld

/-- The listed values can be deleted where they are, and then they are gone. -/
theorem run_deleteValues (hentry : now.entry? dn = some e') (hdenied : now.denied = [])
    (htidy : now.Tidy) (hvalues : ∀ pair ∈ input.ordinary.pairs, Text.Distinct pair.2 ∧
      ∀ v ∈ pair.2, now.HoldsAt pair.1 dn v) :
    ∃ after, now.run (p.modifyValues dn .delete input.ordinary) = (.ok (), after) ∧
      Touched (fun name => input.ordinary.get? name ≠ none) now after ∧
      ∀ pair ∈ input.ordinary.pairs, ∀ v ∈ pair.2, ¬ after.HoldsAt pair.1 dn v := by
  obtain ⟨left, happly, hgone⟩ := Attributes.exists_applyAll_deletions dn.text h.filled
    (htidy e' (now.entries.get?_eq_some_iff.1 hentry).1).2 (fun pair hpair => (hvalues pair hpair).1)
    fun pair hpair v hv => (Directory.holdsAt_iff hentry _ _).1 ((hvalues pair hpair).2 v hv)
  obtain ⟨after, hrun, htouched, hafter⟩ :=
    Directory.run_modify_touched p.supply hdenied hentry happly
  unfold modifyValues sendItems
  split
  · next hempty =>
    have hnone := List.map_eq_nil_iff.1 (List.isEmpty_iff.1 hempty)
    refine ⟨now, rfl, (Directory.touched_frame _).refl now, ?_⟩
    rw [hnone]
    exact nofun
  · refine ⟨after, ?_, htouched.mono fun name hitem => Attributes.get?_ne_none_of_item hitem,
      fun pair hpair v hv hheld => hgone pair hpair v hv ?_⟩
    · exact Directory.run_lift_of_ok hrun
    · have hstamp := h.listed_not_stamp hpair
      unfold Directory.HoldsAt at hheld
      rwa [hafter dn _ fun hsame => hstamp (Text.same_symm hsame), if_pos rfl] at hheld

end Reversible

/-- A directory is free of what an addition brings in if none of the listed values is held where it is
added. -/
theorem freeOf_extras
    (hvalues : ∀ pair ∈ input.ordinary.pairs, ∀ v ∈ pair.2, ¬ now.HoldsAt pair.1 dn v)
    (hgroups : ∀ kind x, x.isIn (input.requests.get kind).groups = true →
      ¬ now.HoldsAt (p.descriptor kind).memberAttribute x (p.ownReference dn e kind)) :
    now.FreeOf (p.extras dn e input) := by
  intro x name value _ hextra hheld
  rw [has_extras_iff] at hextra
  rcases hextra with ⟨hkey, hlisted⟩ | ⟨kind, hname, hin, hvalue⟩
  · obtain ⟨pair, hpair, hname, hvalue⟩ := Attributes.holds_values_iff.1 hlisted
    obtain ⟨v, hv, hsame⟩ := Text.holds_iff.1 hvalue
    exact hvalues pair hpair v hv
      ((now.holdsAt_congr hkey (Text.same_symm hname) (Text.same_iff.2 hsame.symm)).1 hheld)
  · exact hgroups kind x hin ((now.holdsAt_congr rfl hname hvalue).2 hheld)

namespace Reversible

theorem freeOf (h : p.Reversible dn e dir input) (hadds : p.Adds dn e input dir after) :
    dir.FreeOf (p.extras dn e input) := by
  refine freeOf_extras (fun pair hpair v hv => ((hadds.values pair hpair).2 v hv).1) ?_
  intro kind x hin hheld
  obtain ⟨group, hgroup, hsame⟩ := List.any_eq_true.1 hin
  refine h.unheld kind group hgroup _ (KindDescriptor.mem_ownReferences.2
    (mem_of_canonicalReference? (hadds.joined kind group hgroup).1)) ?_
  exact (dir.holdsAt_congr (Dn.same_iff.1 hsame) (Text.same_refl _) (Text.same_refl _)).1 hheld

/-- No reference is listed for removal. -/
theorem not_listsUsed (h : p.Reversible dn e dir input) (entries : Entries) :
    ¬ p.ListsUsed e' entries input.ordinary kind := by
  rintro ⟨name, r, hname, hlisted, -, -⟩
  cases hreference : (p.descriptor kind).reference with
  | name =>
    rw [KindDescriptor.referenceAttribute?, hreference] at hname
    cases hname
  | valueOf other =>
    rw [KindDescriptor.referenceAttribute?_valueOf hreference] at hname
    cases hname
    rw [Attributes.values, h.references kind _ hreference] at hlisted
    cases hlisted

/-- Planning the removal succeeds with the memberships in the listed groups. -/
theorem run_planLeaving (h : p.Reversible dn e dir input) (hentry : now.entry? dn = some e') :
    ∃ caches mid, now.Unwritten mid ∧ now.run ((p.planLeaving input).run (p.caches dn)) =
      (.ok (valueKinds.map fun kind =>
        (kind, p.membershipsIn input.requests kind dn e' now.entries), caches), mid) := by
  have hplan := finds_planLeaving (p := p) hentry input now (p.caches dn) rfl
    (p.agree_caches dn e' now.entries)
  cases hrun : now.run ((p.planLeaving input).run (p.caches dn)) with
  | mk result mid =>
    rw [hrun] at hplan
    cases result with
    | error err =>
      obtain ⟨⟨⟨kind, -, hused⟩, -⟩, -⟩ := hplan
      exact absurd hused (h.not_listsUsed _)
    | ok ending =>
      obtain ⟨⟨-, hending⟩, -, hquiet⟩ := hplan
      exact ⟨ending.2, mid, hquiet, by rw [← hending]⟩

end Reversible

/-! ## Both operations -/

/-- The memberships that a removal ends, for each kind. -/
def endings (p : Provisioner) (requests : GroupRequests) (dn : Dn) (e : Entry) (entries : Entries) :
    MembershipKind → List GroupMembership
  | .static => requests.static.groups.map fun group => ⟨dn.text, group⟩
  | kind => p.membershipsIn requests kind dn e entries

/-- The removal of what was added succeeds, touches nothing else, and leaves none of it. -/
theorem Reversible.run_removeValues (h : p.Reversible dn e dir input) {entryClass : EntryClass}
    {uid : String} {attributes : List InputAttribute} (hadds : p.Adds dn e input dir after)
    (hentry : dir.entry? dn = some e) (hinput : Input.partition .values attributes = .ok input)
    (hresolve : (after.run (p.resolve entryClass uid)).1 = .ok dn) :
    ∃ final, after.run (p.removeValues entryClass uid attributes) = (.ok uid, final) ∧
      AlikeBut (p.extras dn e input) after final ∧ final.Tidy ∧
        final.FreeOf (p.extras dn e input) := by
  obtain ⟨e', hentry', -⟩ := hadds.grows.alike.exists_entry hentry
  obtain ⟨found, hresolved⟩ : ∃ found, after.run (p.resolve entryClass uid) = (.ok dn, found) :=
    ⟨_, Directory.run_of_result hresolve⟩
  have hfound := (p.keeps_unwritten_resolve entryClass uid).of_run hresolved
  obtain ⟨caches, planned, hplanned, hplan⟩ :=
    h.run_planLeaving ((hfound.entry?_eq dn).trans hentry')
  have hquiet := unwritten_frame.trans hfound hplanned
  -- The listed values go first.
  have htidy : planned.Tidy := hquiet.staysTidy (hadds.grows.tidy h.tidy)
  have hheld : ∀ pair ∈ input.ordinary.pairs, Text.Distinct pair.2 ∧
      ∀ v ∈ pair.2, planned.HoldsAt pair.1 dn v := fun pair hpair =>
    ⟨(hadds.values pair hpair).1, fun v hv =>
      hquiet.holdsAt_iff.2 ((hadds.values pair hpair).2 v hv).2⟩
  obtain ⟨sent, hsend, htouched, hgone⟩ := h.run_deleteValues
    ((hquiet.entry?_eq dn).trans hentry') (hquiet.2.1.trans hadds.denied) htidy hheld
  have hdelete : ModifyOp.delete ≠ .replace := nofun
  have hsent := (h.keeps_alikeBut_values hdelete).of_run hsend
  have hitems : ∀ item ∈ input.ordinary.deletions, item.op = .replace → Text.Distinct item.values := by
    rw [Attributes.deletions, List.forall_mem_map]
    exact fun _ _ hop => nomatch hop
  have htidy' : StaysTidy planned sent :=
    (staysTidy_frame.keeps_sendItems (keeps_staysTidy_modify hitems)).of_run hsend
  -- The memberships were found before that, and are still there.
  have hback (kind : MembershipKind) : p.TakesBack dn e input sent kind
      (p.endings input.requests dn e' found.entries kind) := by
    have hbefore : p.TakesBack dn e input after kind
        (p.endings input.requests dn e' after.entries kind) := by
      cases kind with
      | static => exact h.takesBack_static hadds
      | posix => exact h.takesBack_membershipsIn hadds hentry hentry'
      | mailAlias => exact h.takesBack_membershipsIn hadds hentry hentry'
    rw [hfound.1]
    have hplain : ¬ input.ordinary.get? (p.descriptor kind).memberAttribute ≠ none :=
      fun hne => hne (h.members kind)
    exact h.takesBack_touched hbefore
      ((Directory.touched_frame _).trans (hquiet.touched _) htouched) hplain
  have honce : MembershipKind.all.Nodup := by decide
  obtain ⟨final, hends, htouched', halike, htidy'', hgone'⟩ := h.run_takesAllBack honce
    (fun kind _ => hback kind) (htouched.denied.trans (hquiet.2.1.trans hadds.denied)) (htidy' htidy)
  refine ⟨final, ?_, (alikeBut_frame _).trans hquiet.alikeBut
    ((alikeBut_frame _).trans hsent halike), htidy'', ?_⟩
  · obtain ⟨_, static, hstatic, hothers⟩ := Directory.run_bind_ok.1 hends
    unfold removeValues
    refine Directory.run_bind_ok.2 ⟨dn, found, hresolved, ?_⟩
    rw [hinput, run_ofInput_sorted, h.password]
    refine Directory.run_bind_ok.2 ⟨none, found, rfl, ?_⟩
    refine Directory.run_bind_ok.2 ⟨_, planned, hplan, ?_⟩
    refine Directory.run_bind_ok.2 ⟨(), sent, hsend, ?_⟩
    refine Directory.run_bind_ok.2 ⟨(), sent, rfl, ?_⟩
    refine Directory.run_bind_ok.2 ⟨(), static, hstatic, ?_⟩
    exact Directory.run_bind_ok.2 ⟨(), final, hothers, rfl⟩
  · refine freeOf_extras (fun pair hpair v hv hheld => hgone pair hpair v hv ?_)
      fun kind => hgone' kind kind.mem_all
    have hstamp := h.listed_not_stamp hpair
    unfold Directory.HoldsAt at hheld ⊢
    rwa [htouched'.others _ _ ?_ fun hsame => hstamp (Text.same_symm hsame)] at hheld
    rintro ⟨kind, -, hname⟩
    have hget := AttributePairs.get?_of_mem input.ordinary.distinct hpair (Text.same_symm hname)
    cases hget.symm.trans (h.members kind)

/-- **What was added can be taken back.** If an addition of values succeeds, the removal of the same
values does, and leaves every entry as it was before, with all attributes and values in their order;
only the time stamps differ. -/
theorem removeValues_restores (p : Provisioner) (entryClass : EntryClass) (uid uid' : String)
    (attributes : List InputAttribute) (dir after : Directory) (dn : Dn) (e : Entry) (input : Input)
    (hresolve : (dir.run (p.resolve entryClass uid)).1 = .ok dn) (hentry : dir.entry? dn = some e)
    (hinput : Input.partition .values attributes = .ok input) (h : p.Reversible dn e dir input)
    (hrun : dir.run (p.addValues entryClass uid attributes) = (.ok uid', after))
    (hresolve' : (after.run (p.resolve entryClass uid)).1 = .ok dn) :
    ∃ final, after.run (p.removeValues entryClass uid attributes) = (.ok uid, final) ∧
      ∀ x, (final.entry? x).map Entry.unstamped = (dir.entry? x).map Entry.unstamped := by
  have hadds := h.adds hresolve hentry hinput hrun
  obtain ⟨final, hremove, halike, htidy, hfree⟩ :=
    h.run_removeValues hadds hentry hinput hresolve'
  refine ⟨final, hremove, fun x => ?_⟩
  exact ((alikeBut_frame _).trans hadds.grows.alike halike).unstamped_eq (h.freeOf hadds) hfree
    h.tidy htidy x

end Provisioner

namespace Sample

/-- A directory with an entry that has two references, and two groups with other members. -/
def annBesideGroups : Directory :=
  directory [(name "uid" "ann", [("uid", ["zoe", "ann"]), ("mail", ["ann@x"]), ("sn", ["Lee"])]),
    (name "cn" "list", [("cn", ["list"])]),
    (name "cn" "team", [("memberUid", ["bob"])])]

/-- Values that the entry does not have and groups that it is not in. -/
def annExpands : List InputAttribute :=
  [⟨"SN", [.text "Ray"]⟩, ⟨"title", [.text "Dr"]⟩, ⟨"posixGroups", [.text "cn=team,dc=x"]⟩,
    ⟨"ldapGroups", [.text "CN=team,dc=x"]⟩, ⟨"aliasGroups", [.text "cn=list,dc=x"]⟩]

/-- The input that these attributes make. -/
def annExpandsInput : Input where
  ordinary := .ofList [("SN", ["Ray"]), ("title", ["Dr"])]
  requests :=
    { static := .replace [⟨[.single "CN" "team", .single "dc" "x"]⟩]
      posix := .replace [name "cn" "team"]
      mailAlias := .replace [name "cn" "list"] }

theorem annExpands_reversible : provisioner.Reversible (name "uid" "ann")
    ⟨name "uid" "ann", .ofList [("uid", ["zoe", "ann"]), ("mail", ["ann@x"]), ("sn", ["Lee"])]⟩
    annBesideGroups annExpandsInput where
  kinds kind other := by cases kind <;> cases other <;> decide +kernel
  denied := rfl
  tidy := by decide +kernel
  password := rfl
  resetPassword := rfl
  filled := by decide +kernel
  timeStamp := by decide +kernel
  members kind := by cases kind <;> decide +kernel
  references kind name := by cases kind <;> rintro ⟨⟩ <;> decide +kernel
  once kind := by cases kind <;> decide +kernel
  inScope kind := by cases kind <;> decide +kernel
  unheld kind := by cases kind <;> decide +kernel
  memberStamp kind := by cases kind <;> decide +kernel
  referenceStamp kind name := by cases kind <;> rintro - ⟨⟩ <;> decide +kernel
  referenceMember kind other name := by
    cases kind <;> rintro - ⟨⟩ <;> cases other <;> decide +kernel

/-- The directory after the addition. -/
def annExpanded : Directory :=
  (annBesideGroups.run (provisioner.addValues .account "uid=ann,dc=x" annExpands)).2

/-- The values and the references that came last are gone again. -/
theorem annExpanded_restored :
    annExpanded.valuesAt (name "uid" "ann") "sn" = ["Lee", "Ray"] ∧
      annExpanded.valuesAt (name "cn" "team") "memberUid" = ["bob", "ann"] ∧
      ∃ final, annExpanded.run (provisioner.removeValues .account "uid=ann,dc=x" annExpands) =
          (.ok "uid=ann,dc=x", final) ∧
        ∀ x, (final.entry? x).map Entry.unstamped =
          (annBesideGroups.entry? x).map Entry.unstamped := by
  refine ⟨by decide +kernel, by decide +kernel, ?_⟩
  exact Provisioner.removeValues_restores provisioner .account "uid=ann,dc=x" "uid=ann,dc=x"
    annExpands annBesideGroups annExpanded (name "uid" "ann") _ annExpandsInput (by decide +kernel)
    (by decide +kernel) (by decide +kernel) annExpands_reversible
    (Directory.run_of_result (by decide +kernel)) (by decide +kernel)

/-! ## Additions that are not taken back -/

/-- What is left of an addition that is taken back at once. -/
def undone (p : Provisioner) (dir : Directory) (uid : String) (attributes : List InputAttribute) :
    Except ProvisioningError String × Directory :=
  (dir.run (p.addValues .account uid attributes)).2.run (p.removeValues .account uid attributes)

/-- Under a usable configuration an addition of new values succeeds in a directory where every value
has its place, and taking the same values back does not leave everything as it was. -/
structure Lasts (p : Provisioner) (dir : Directory) (uid : String)
    (attributes : List InputAttribute) (dn : Dn) (e : Entry) (input : Input) : Prop where
  valid : p.configuration.check = .ok ()
  kinds (kind other : MembershipKind) : kind ≠ other →
    ¬ Text.same (p.descriptor kind).memberAttribute (p.descriptor other).memberAttribute = true
  denied : dir.denied = []
  tidy : dir.Tidy
  resolves : (dir.run (p.resolve .account uid)).1 = .ok dn
  stored : dir.entry? dn = some e
  reads : Input.partition .values attributes = .ok input
  valued (a : InputAttribute) : a ∈ attributes → a.values ≠ []
  /-- Besides ordinary attributes only groups are listed. -/
  plain : input = { ordinary := input.ordinary, requests := input.requests }
  timeStamp : input.ordinary.get? "modifyTimestamp" = none
  members (kind : MembershipKind) : input.ordinary.get? (p.descriptor kind).memberAttribute = none
  references (kind : MembershipKind) (name : String) :
    (p.descriptor kind).reference = .valueOf name → input.ordinary.get? name = none
  /-- No listed value is on the entry yet. -/
  fresh (pair : String × List String) : pair ∈ input.ordinary.pairs →
    ∀ v ∈ pair.2, ¬ Text.holds (e.attributes.values pair.1) v = true
  once (kind : MembershipKind) :
    (input.requests.get kind).groups.Pairwise fun a b => ¬ a.same b = true
  inScope (kind : MembershipKind) (group : Entry) : group ∈ dir.entries.list →
    group.dn.isIn (input.requests.get kind).groups = true → p.InScope group.dn
  unheld (kind : MembershipKind) : ∀ group ∈ (input.requests.get kind).groups,
    ∀ r ∈ (p.descriptor kind).ownReferences dn e,
      ¬ dir.HoldsAt (p.descriptor kind).memberAttribute group r
  adds : (dir.run (p.addValues .account uid attributes)).1 = .ok uid
  resolvesAgain : ((dir.run (p.addValues .account uid attributes)).2.run
    (p.resolve .account uid)).1 = .ok dn
  lasts : ¬ ((undone p dir uid attributes).1 = .ok uid ∧
    ∀ x, (Directory.entry? (undone p dir uid attributes).2 x).map Entry.unstamped =
      (dir.entry? x).map Entry.unstamped)

/-- The provisioner whose alias groups hold their members under the attribute that posix groups refer
to. -/
def uidMembers : Provisioner :=
  { provisioner with
    configuration := { provisioner.configuration with aliasGroupMemberAttribute := "uid" } }

/-- The provisioner whose alias groups refer to their members by the time stamp. -/
def stampReferences : Provisioner :=
  { provisioner with
    configuration :=
      { provisioner.configuration with aliasGroupMemberRefAttribute := "modifyTimestamp" } }

/-- An entry with an identifier and a mail address. -/
def mailedAnn : Entry :=
  ⟨name "uid" "ann", .ofList [("uid", ["ann"]), ("mail", ["ann@x"])]⟩

/-- A directory with this entry and a group with one member. -/
def annBesideMember (memberAttribute member : String) : Directory :=
  directory [(name "uid" "ann", [("uid", ["ann"]), ("mail", ["ann@x"])]),
    (name "cn" "team", [(memberAttribute, [member])])]

/-- An entry that joins itself and another group. -/
def annJoinsBoth : List InputAttribute :=
  [⟨"posixGroups", [.text "cn=team,dc=x"]⟩, ⟨"aliasGroups", [.text "uid=ann,dc=x"]⟩]

/-- The input that these attributes make. -/
def annJoinsBothInput : Input where
  requests :=
    { posix := .replace [name "cn" "team"], mailAlias := .replace [name "uid" "ann"] }

/-- An entry that gains a value and joins a group. -/
def annMarries : List InputAttribute :=
  [⟨"sn", [.text "Lee"]⟩, ⟨"aliasGroups", [.text "cn=team,dc=x"]⟩]

/-- The input that these attributes make. -/
def annMarriesInput : Input where
  ordinary := .ofList [("sn", ["Lee"])]
  requests := { mailAlias := .replace [name "cn" "team"] }

/-- The removal fails: the server has written its time stamp over the member. -/
theorem stampedMember_lasts :
    Lasts stamped annBesideTeam "cn=ann,dc=x" [⟨"ldapGroups", [.text "cn=team,dc=x"]⟩]
      (name "cn" "ann") ⟨name "cn" "ann", .ofList [("cn", ["ann"])]⟩ (listing .static) where
  valid := by decide +kernel
  kinds kind other := by cases kind <;> cases other <;> decide +kernel
  denied := rfl
  tidy := by decide +kernel
  resolves := by decide +kernel
  stored := by decide +kernel
  reads := by decide +kernel
  valued := by decide +kernel
  plain := rfl
  timeStamp := rfl
  members _ := rfl
  references _ _ _ := rfl
  fresh := nofun
  once kind := by cases kind <;> decide +kernel
  inScope kind := by cases kind <;> decide +kernel
  unheld kind := by cases kind <;> decide +kernel
  adds := by decide +kernel
  resolvesAgain := by decide +kernel
  lasts h := absurd h.1 (by decide +kernel)

/-- The removal goes by the reference that the entry has got as a member of itself. -/
theorem ownMember_lasts :
    Lasts uidMembers (annBesideMember "memberUid" "ann@x") "uid=ann,dc=x" annJoinsBoth
      (name "uid" "ann") mailedAnn annJoinsBothInput where
  valid := by decide +kernel
  kinds kind other := by cases kind <;> cases other <;> decide +kernel
  denied := rfl
  tidy := by decide +kernel
  resolves := by decide +kernel
  stored := by decide +kernel
  reads := by decide +kernel
  valued := by decide +kernel
  plain := rfl
  timeStamp := rfl
  members _ := rfl
  references _ _ _ := rfl
  fresh := nofun
  once kind := by cases kind <;> decide +kernel
  inScope kind := by cases kind <;> decide +kernel
  unheld kind := by cases kind <;> decide +kernel
  adds := by decide +kernel
  resolvesAgain := by decide +kernel
  lasts h := absurd (h.2 (name "cn" "team")) (by decide +kernel)

/-- The removal goes by the time stamp that the addition has given the entry. -/
theorem stampReference_lasts :
    Lasts stampReferences (annBesideMember "rfc822MailMember" "now") "uid=ann,dc=x" annMarries
      (name "uid" "ann") mailedAnn annMarriesInput where
  valid := by decide +kernel
  kinds kind other := by cases kind <;> cases other <;> decide +kernel
  denied := rfl
  tidy := by decide +kernel
  resolves := by decide +kernel
  stored := by decide +kernel
  reads := by decide +kernel
  valued := by decide +kernel
  plain := rfl
  timeStamp := by decide +kernel
  members kind := by cases kind <;> decide +kernel
  references kind name := by cases kind <;> rintro ⟨⟩ <;> decide +kernel
  fresh := by decide +kernel
  once kind := by cases kind <;> decide +kernel
  inScope kind := by cases kind <;> decide +kernel
  unheld kind := by cases kind <;> decide +kernel
  adds := by decide +kernel
  resolvesAgain := by decide +kernel
  lasts h := absurd (h.2 (name "cn" "team")) (by decide +kernel)

/-- Where the server overwrites what is written into a group, the removal does not find it. Where
joining a group gives the entry another reference, or a time stamp that is its reference, the removal
ends a membership that was there before. -/
theorem additions_not_taken_back :
    (Lasts stamped annBesideTeam "cn=ann,dc=x" [⟨"ldapGroups", [.text "cn=team,dc=x"]⟩]
          (name "cn" "ann") ⟨name "cn" "ann", .ofList [("cn", ["ann"])]⟩ (listing .static) ∧
        (undone stamped annBesideTeam "cn=ann,dc=x" [⟨"ldapGroups", [.text "cn=team,dc=x"]⟩]).1 =
          .error (.directory
            (.noSuchAttribute "cn=team,dc=x" "modifyTimestamp" (some "cn=ann,dc=x")))) ∧
      (Lasts uidMembers (annBesideMember "memberUid" "ann@x") "uid=ann,dc=x" annJoinsBoth
          (name "uid" "ann") mailedAnn annJoinsBothInput ∧
        (undone uidMembers (annBesideMember "memberUid" "ann@x") "uid=ann,dc=x" annJoinsBoth).1 =
          .ok "uid=ann,dc=x" ∧
        (undone uidMembers (annBesideMember "memberUid" "ann@x") "uid=ann,dc=x"
          annJoinsBoth).2.valuesAt (name "cn" "team") "memberUid" = []) ∧
      (Lasts stampReferences (annBesideMember "rfc822MailMember" "now") "uid=ann,dc=x" annMarries
          (name "uid" "ann") mailedAnn annMarriesInput ∧
        (undone stampReferences (annBesideMember "rfc822MailMember" "now") "uid=ann,dc=x"
          annMarries).1 = .ok "uid=ann,dc=x" ∧
        (undone stampReferences (annBesideMember "rfc822MailMember" "now") "uid=ann,dc=x"
          annMarries).2.valuesAt (name "cn" "team") "rfc822MailMember" = []) :=
  ⟨⟨stampedMember_lasts, by decide +kernel⟩, ⟨ownMember_lasts, by decide +kernel⟩,
    stampReference_lasts, by decide +kernel⟩

end Sample

end Roster
