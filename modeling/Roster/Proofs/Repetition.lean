import Roster.Proofs.Identifiers
import Roster.Proofs.Restoring
import Roster.Proofs.SettledEntries

/-!
# Repeated updates

A plain update of a settled entry writes attributes that are there already and adds memberships that
are there already, below the base contexts not even that. So an update that is repeated changes time
stamps at most (`Provisioner.update_repeats`), unless the first run has changed what the entry is
called in groups or the server overwrites what the update has written.
-/

namespace Roster

open Directory (Unwritten)

/-! ## Writing what is there -/

namespace AttributePairs

theorem upsert_self {pairs : AttributePairs} {name : String} {vs : List String}
    (h : get? pairs name = some vs) : upsert (fun _ => vs) name pairs = pairs := by
  induction pairs with
  | nil => cases h
  | cons pair rest ih =>
    rw [get?_cons] at h
    rw [upsert]
    split
    · next hsame =>
      rw [if_pos hsame] at h
      cases h
      rfl
    · next hne =>
      rw [if_neg hne] at h
      rw [ih h]

theorem filter_self {pairs : AttributePairs} {name : String} (h : get? pairs name = none) :
    pairs.filter (fun pair => !Text.same pair.1 name) = pairs := by
  refine List.filter_eq_self.2 fun pair hpair => ?_
  have hfound := List.find?_eq_none.1 (Option.map_eq_none_iff.1 h) pair hpair
  rw [Bool.not_eq_true']
  exact Bool.eq_false_iff.2 hfound

end AttributePairs

namespace Attributes

variable {attrs start after : Attributes} {name other : String} {vs : List String}

theorem settle_self (h : attrs.get? name = if vs.isEmpty then none else some vs) :
    attrs.settle name vs = attrs := by
  unfold settle
  split
  · next hempty =>
    rw [if_pos hempty] at h
    exact eq_of_pairs (AttributePairs.filter_self h)
  · next hsome =>
    rw [if_neg hsome] at h
    exact eq_of_pairs (AttributePairs.upsert_self h)

theorem erase_settle_same (hsame : Text.same name other = true) :
    (attrs.settle name vs).erase other = attrs.erase other := by
  unfold settle
  split
  · rw [erase_erase_comm]
    refine eq_of_pairs (AttributePairs.filter_self ?_)
    have herased := attrs.get?_erase other name
    rwa [if_pos (Text.same_symm hsame)] at herased
  · exact erase_upsert_same attrs hsame _

/-- Replacing attributes by what they are changes one at most. -/
theorem exists_applyAll_settled (dn : String) {pairs : AttributePairs}
    (hpairs : ∀ pair ∈ pairs, ¬ Text.same other pair.1 = true →
      start.get? pair.1 = if pair.2.isEmpty then none else some pair.2)
    (h : attrs.erase other = start.erase other) :
    ∃ after, attrs.applyAll dn (pairs.map fun (name, values) => ⟨.replace, name, values⟩) =
      .ok after ∧ after.erase other = start.erase other := by
  induction pairs generalizing attrs with
  | nil => exact ⟨attrs, rfl, h⟩
  | cons pair rest ih =>
    rw [List.forall_mem_cons] at hpairs
    have hstep : (attrs.settle pair.1 pair.2).erase other = start.erase other := by
      by_cases hsame : Text.same pair.1 other = true
      · rw [erase_settle_same hsame, h]
      · rw [erase_settle attrs hsame, h]
        refine settle_self ?_
        rw [get?_erase_of_ne start hsame]
        exact hpairs.1 fun hsame' => hsame (Text.same_symm hsame')
    obtain ⟨after, happly, hafter⟩ := ih hpairs.2 hstep
    exact ⟨after, applyAll_cons.2 ⟨_, rfl, happly⟩, hafter⟩

end Attributes

/-! ## Directories that differ in time stamps -/

/-- Two directories differ in time stamps only. -/
def Directory.Alike (dir after : Directory) : Prop :=
  ∀ x, (after.entry? x).map Entry.unstamped = (dir.entry? x).map Entry.unstamped

namespace Directory.Alike

variable {dir after : Directory} {x : Dn} {e : Entry}

theorem exists_entry (h : dir.Alike after) (hentry : dir.entry? x = some e) :
    ∃ e', after.entry? x = some e' ∧ e'.unstamped = e.unstamped := by
  have hx := h x
  rw [hentry] at hx
  exact Option.map_eq_some_iff.1 hx

theorem valuesAt_eq (h : dir.Alike after) {name : String}
    (hname : ¬ Text.same "modifyTimestamp" name = true) (x : Dn) :
    after.valuesAt x name = dir.valuesAt x name := by
  have hkept (e : Entry) : e.unstamped.attributes.values name = e.attributes.values name :=
    e.attributes.values_erase_of_ne fun hsame => hname (Text.same_symm hsame)
  unfold Directory.valuesAt
  cases hentry : dir.entry? x with
  | none =>
    have hx := h x
    rw [hentry] at hx
    rw [Option.map_eq_none_iff.1 hx]
  | some e =>
    obtain ⟨e', hentry', hsame⟩ := h.exists_entry hentry
    rw [hentry']
    dsimp only
    rw [← hkept e', hsame, hkept e]

end Directory.Alike

/-- What has been sent is the end of the journal. -/
theorem Directory.Sends.of_mem_drop {dir after : Directory} {P : Request → Prop}
    (h : dir.Sends P after) : ∀ r ∈ after.journal.drop dir.journal.length, P r := by
  obtain ⟨requests, hjournal, hP⟩ := h
  rw [hjournal, List.drop_left]
  exact hP

/-- A write that nothing but its time stamp tells. -/
theorem Directory.alike_insert_stamped {dir after : Directory} {x : Dn} {e : Entry}
    {attrs : Attributes} {values : List String} (hentry : dir.entry? x = some e)
    (hattrs : attrs.erase "modifyTimestamp" = e.attributes.erase "modifyTimestamp")
    (hafter : after.entries = dir.entries.insert ⟨e.dn, attrs.put "modifyTimestamp" values⟩) :
    dir.Alike after := by
  intro y
  unfold Directory.entry? at hentry ⊢
  rw [hafter, Entries.get?_insert_stamped hentry]
  split
  · next hkey =>
    rw [← dir.get?_congr hkey, hentry, Option.map_some, Option.map_some, Entry.unstamped,
      Entry.unstamped, ← hattrs]
    exact congrArg (fun attrs => some (Entry.mk e.dn attrs))
      (attrs.erase_upsert_same (Text.same_refl _) _)
  · rfl

namespace Provisioner

variable {p : Provisioner} {dn : Dn} {e : Entry} {dir now later after : Directory} {input : Input}
  {kind : MembershipKind}

instance (p : Provisioner) (dir : Directory) (x : Dn) : Decidable (p.InReach dir x) :=
  decidable_of_iff ((dir.entry? x).any fun group => decide (p.InScope group.dn)) (by
    simp only [InReach, Option.any_eq_true, decide_eq_true_eq])

/-- The request modifies no entry below a base context but the one at a name, and changes no other
way. -/
def StaysAt (p : Provisioner) (dir : Directory) (dn : Dn) : Request → Prop
  | .search .. | .read _ => True
  | .modify target _ => target.key = dn.key ∨ ¬ p.InReach dir target
  | .add _ | .rename .. => False

instance (p : Provisioner) (dir : Directory) (dn : Dn) : DecidablePred (p.StaysAt dir dn)
  | .search .. | .read _ => .isTrue trivial
  | .modify target _ => inferInstanceAs (Decidable (target.key = dn.key ∨ ¬ p.InReach dir target))
  | .add _ | .rename .. => .isFalse not_false

/-- From one moment to another nothing happened but writes of what was there: to the entry at a name,
and to entries that are out of reach. -/
structure Idle (p : Provisioner) (dn : Dn) (dir now : Directory) : Prop where
  alike : dir.Alike now
  denied : now.denied = dir.denied
  sends : dir.Sends (p.StaysAt dir dn) now

theorem idle_refl (p : Provisioner) (dn : Dn) (dir : Directory) : p.Idle dn dir dir :=
  ⟨fun _ => rfl, rfl, (Directory.sends_frame _).refl dir⟩

theorem Idle.trans (h : p.Idle dn dir now) (halike : now.Alike later)
    (hdenied : later.denied = now.denied) (hsends : now.Sends (p.StaysAt dir dn) later) :
    p.Idle dn dir later :=
  ⟨fun x => (halike x).trans (h.alike x), hdenied.trans h.denied,
    (Directory.sends_frame _).trans h.sends hsends⟩

theorem Idle.quiet (h : p.Idle dn dir now) (hquiet : now.Unwritten later) : p.Idle dn dir later := by
  refine h.trans (fun x => ?_) hquiet.2.1 (hquiet.sends fun request hread => ?_)
  · rw [hquiet.entry?_eq]
  · cases request with
    | search | read => trivial
    | add | modify | rename => cases hread

/-- What an entry is identified by is not affected by time stamps. -/
theorem Idle.run_identify (h : p.Idle dn dir now) {entryClass : EntryClass} {uid : String}
    (hidentifier : p.identifiesByName entryClass = true ∨
      ¬ Text.same "modifyTimestamp" (p.uidAttribute entryClass) = true)
    (hrun : (dir.run (p.identify entryClass dn)).1 = .ok uid) :
    (now.run (p.identify entryClass dn)).1 = .ok uid := by
  cases hname : p.identifiesByName entryClass with
  | true =>
    rw [identify, if_pos hname] at hrun ⊢
    exact hrun
  | false =>
    have hstamp := hidentifier.resolve_left (Bool.eq_false_iff.1 hname)
    obtain ⟨e, hentry, hfirst⟩ := (identify_ok_iff hname).1 hrun
    obtain ⟨e', hentry', -⟩ := h.alike.exists_entry hentry
    have hvalues := h.alike.valuesAt_eq hstamp dn
    rw [Directory.valuesAt_of_entry? hentry, Directory.valuesAt_of_entry? hentry'] at hvalues
    exact (identify_ok_iff hname).2 ⟨e', hentry', hvalues ▸ hfirst⟩

/-! ## A settled entry -/

namespace Settled

variable (h : p.Settled dn e input dir)

include h

theorem mem_ownReferences (hgroups : (input.requests.get kind).groups ≠ []) :
    p.ownReference dn e kind ∈ (p.descriptor kind).ownReferences dn e :=
  KindDescriptor.mem_ownReferences.2 (Text.least_of_least? (h.referable kind hgroups)).1

theorem replaces (hsupplied : (input.requests.get kind).isUntouched = false) :
    p.Replaces kind dn e dir (p.ownReference dn e kind) (input.requests.get kind).groups
      (p.plainDiff dn e dir.entries input.requests kind) := by
  rw [plainDiff_of_supplied hsupplied]
  refine replaces_regroup _ fun group hgroup => ?_
  obtain ⟨e, hentry, -⟩ := Directory.exists_entry_of_holdsAt (h.listed kind group hgroup)
  exact Directory.stored_iff.2 ⟨e, hentry⟩

/-- There is no membership to end. -/
theorem effectiveRemoved_eq (kind : MembershipKind) :
    (p.plainDiff dn e dir.entries input.requests kind).effectiveRemoved = [] := by
  cases huntouched : (input.requests.get kind).isUntouched with
  | true =>
    rw [plainDiff, if_pos huntouched]
    rfl
  | false =>
    have hreplaces := h.replaces huntouched
    refine List.eq_nil_iff_forall_not_mem.2 fun m hm => ?_
    obtain ⟨hremoved, hnone⟩ := OrderedSet.mem_difference.1 hm
    have hmember := hreplaces.removed m hremoved
    obtain ⟨hlisted, hsame⟩ := h.members kind m huntouched hmember
    obtain ⟨group, hgroup, hkey⟩ := List.any_eq_true.1 hlisted
    obtain ⟨a, ha, heq⟩ := hreplaces.whole group hgroup
    have hreference : p.ownReference dn e kind = m.reference :=
      h.apart kind _ _ huntouched (h.mem_ownReferences (List.ne_nil_of_mem hgroup))
        (KindDescriptor.mem_ownReferences.2 (reference_of_mem_membershipsOf hmember)) hsame
    refine hnone a ha (BEq.symm (BEq.trans heq (GroupMembership.beq_iff.2 ⟨hreference, ?_⟩)))
    exact (Dn.same_iff.1 hkey).symm

/-- The memberships to add are there, out of reach, in groups that may be written. -/
theorem of_mem_effectiveAdded {m : GroupMembership}
    (hm : m ∈ (p.plainDiff dn e dir.entries input.requests kind).effectiveAdded) :
    (input.requests.get kind).isUntouched = false ∧
      dir.HoldsAt (p.descriptor kind).memberAttribute m.group m.reference ∧
      ¬ p.InReach dir m.group ∧ m.group.isIn dir.denied = false := by
  obtain ⟨hadded, hnone⟩ := OrderedSet.mem_difference.1 hm
  cases huntouched : (input.requests.get kind).isUntouched with
  | true =>
    rw [plainDiff, if_pos huntouched] at hadded
    cases hadded
  | false =>
    have hreplaces := h.replaces huntouched
    obtain ⟨group, hgroup, rfl⟩ := hreplaces.added m hadded
    have hheld := h.listed kind group hgroup
    have hout : ¬ p.InReach dir group := fun hreach => by
      have hown := h.mem_ownReferences (List.ne_nil_of_mem hgroup)
      obtain ⟨m, hm, hkey, hsame⟩ :=
        (exists_covers_iff hheld).2 ⟨hreach, _, hown, Text.same_refl _⟩
      obtain ⟨r, hr, heq⟩ := hreplaces.complete m hm
      have hreference : m.reference = p.ownReference dn e kind :=
        h.apart kind _ _ huntouched
          (KindDescriptor.mem_ownReferences.2 (reference_of_mem_membershipsOf hm)) hown hsame
      exact hnone r hr
        (BEq.symm (BEq.trans heq (GroupMembership.beq_iff.2 ⟨hreference, hkey⟩)))
    exact ⟨rfl, hheld, hout, h.unbarred kind group hgroup hout⟩

/-- The attributes are replaced by what they are. -/
theorem run_modifyValues (hentry : dir.entry? dn = some e) (hnow : p.Idle dn dir now) :
    ∃ next, now.run (p.modifyValues dn .replace input.ordinary) = (.ok (), next) ∧
      p.Idle dn dir next := by
  unfold modifyValues sendItems
  split
  · exact ⟨now, rfl, hnow⟩
  · next hitems =>
    have hpairs : input.ordinary.pairs ≠ [] := fun hnil => hitems (by rw [hnil]; rfl)
    have hwritable : dn.isIn now.denied = false := hnow.denied ▸ h.writable hpairs
    obtain ⟨e', hentry', hsame⟩ := hnow.alike.exists_entry hentry
    obtain ⟨attrs, happly, hattrs⟩ := Attributes.exists_applyAll_settled dn.text h.values
      (congrArg Entry.attributes hsame)
    have hmodify : now.run (Directory.modify p.supply dn input.ordinary.replacements) = _ :=
      Directory.run_modify_of_applyAll hwritable hentry' happly
    refine ⟨_, Directory.run_lift_of_ok hmodify, ?_⟩
    refine hnow.trans (Directory.alike_insert_stamped hentry' ?_ rfl) rfl
      ⟨[_], rfl, List.forall_mem_singleton.2 (.inl rfl)⟩
    exact hattrs.trans (congrArg Entry.attributes hsame).symm

/-- The memberships of a kind are added once more. -/
theorem run_applyDiff (hstamp : (input.requests.get kind).isUntouched = false →
      ¬ Text.same "modifyTimestamp" (p.descriptor kind).memberAttribute = true)
    (hnow : p.Idle dn dir now) :
    ∃ next, now.run ((p.descriptor kind).applyDiff p.supply
        (p.plainDiff dn e dir.entries input.requests kind)) = (.ok (), next) ∧
      p.Idle dn dir next := by
  unfold KindDescriptor.applyDiff
  rw [h.effectiveRemoved_eq kind]
  refine Directory.exists_run_forM (fun m hm later hlater => ?_) hnow
  obtain ⟨hsupplied, hheld, hout, hwritable⟩ := h.of_mem_effectiveAdded hm
  have hheld' : later.HoldsAt (p.descriptor kind).memberAttribute m.group m.reference := by
    unfold Directory.HoldsAt
    rw [hlater.alike.valuesAt_eq (hstamp hsupplied)]
    exact hheld
  rw [← hlater.denied] at hwritable
  refine ⟨_, KindDescriptor.run_addMembership_held p.supply hwritable hheld', ?_⟩
  exact hlater.trans (fun _ => rfl) rfl ⟨[_], rfl, List.forall_mem_singleton.2 (.inr hout)⟩

/-- **A settled entry stays as it is.** -/
theorem run_regroupAll (hentry : dir.entry? dn = some e)
    (hstamp : ∀ kind, (input.requests.get kind).isUntouched = false →
      ¬ Text.same "modifyTimestamp" (p.descriptor kind).memberAttribute = true)
    (hnow : p.Idle dn dir now) :
    ∃ next, now.run (p.regroupAll dn e dir.entries input) = (.ok (), next) ∧
      p.Idle dn dir next := by
  obtain ⟨written, hwrite, hwritten⟩ := h.run_modifyValues hentry hnow
  obtain ⟨next, hdiffs, hnext⟩ : ∃ next, written.run (MembershipKind.all.forM fun kind =>
      (liftM ((p.descriptor kind).applyDiff p.supply
        (p.plainDiff dn e dir.entries input.requests kind)) : Action Unit)) = (.ok (), next) ∧
        p.Idle dn dir next := by
    refine Directory.exists_run_forM (fun kind _ later hlater => ?_) hwritten
    obtain ⟨next, hrun, hnext⟩ := h.run_applyDiff (hstamp kind) hlater
    exact ⟨next, Directory.run_lift_of_ok hrun, hnext⟩
  exact ⟨next, Directory.run_bind_ok.2 ⟨(), written, hwrite, hdiffs⟩, hnext⟩

/-- Being settled is about entries and about what is forbidden. -/
theorem quiet (hquiet : dir.Unwritten later) : p.Settled dn e input later := by
  obtain ⟨entries, journal, denied, handled⟩ := dir
  obtain ⟨entries', journal', denied', handled'⟩ := later
  obtain ⟨rfl, rfl, -⟩ := hquiet
  exact ⟨h.referable, h.writable, h.values, h.apart, h.members, h.listed, h.unbarred⟩

end Settled

/-! ## The same update again -/

/-- The references of an entry depend on the values of one attribute. -/
theorem referencesOf_congr {e' : Entry} (h : ∀ name, (p.descriptor kind).reference = .valueOf name →
      e'.attributes.values name = e.attributes.values name) :
    (p.referencesOf kind dn e').getD [] = (p.referencesOf kind dn e).getD [] := by
  cases hreference : (p.descriptor kind).reference with
  | name =>
    unfold referencesOf KindDescriptor.referencesOf
    rw [hreference]
  | valueOf name =>
    have hgetD (e : Entry) : (p.referencesOf kind dn e).getD [] =
        OrderedSet.insertAll [] (e.attributes.values name) := by
      rw [referencesOf, KindDescriptor.referencesOf_valueOf hreference,
        KindDescriptor.referenceValues_none hreference, Attributes.values]
      cases e.attributes.get? name <;> rfl
    rw [hgetD, hgetD, h name hreference]

/-- A plain update leaves an attribute alone that it does not list, that the server does not stamp, and
that does not hold the members of groups asked for. So the references of the entry stay as they are
where no such attribute is one. -/
theorem valuesAt_of_update {entryClass : EntryClass} {uid uid' : String}
    {attributes : List InputAttribute} (hplain : p.Plain input)
    (hresolve : (dir.run (p.resolve entryClass uid)).1 = .ok dn) (hentry : dir.entry? dn = some e)
    (hinput : Input.partition .update attributes = .ok input)
    (hrun : dir.run (p.update entryClass uid attributes) = (.ok uid', after)) {name : String}
    (hname : input.ordinary.get? name = none) (hstamp : ¬ Text.same "modifyTimestamp" name = true)
    (hmembers : ∀ kind, (input.requests.get kind).isUntouched = false →
      ¬ Text.same (p.descriptor kind).memberAttribute name = true) (x : Dn) :
    after.valuesAt x name = dir.valuesAt x name := by
  obtain ⟨-, planned, settled, hquiet, hregroup, hidentify⟩ :=
    stages_of_update hplain hresolve hentry hinput hrun
  have hread := (p.keeps_unwritten_identify entryClass dn).of_run hidentify
  have hspares : Spares x name planned settled := by
    refine (keeps_regroupAll (spares_frame x name)
      (keeps_spares_modify hstamp fun _ item hitem hsame => ?_) fun kind start => ?_).of_run hregroup
    · exact Attributes.get?_ne_none_of_item ⟨item, hitem, hsame⟩ hname
    · cases huntouched : (input.requests.get kind).isUntouched with
      | true =>
        rw [plainDiff, if_pos huntouched]
        exact (spares_frame x name).refl start
      | false =>
        exact (KindDescriptor.keeps_skips_applyDiff (hmembers kind huntouched) hstamp _ _ start).spares
  exact ((spares_frame x name).trans (hquiet.spares x name)
    ((spares_frame x name).trans hspares (hread.spares x name))).valuesAt

/-- **Repeating a plain update changes nothing.** If the server overwrites neither the memberships
asked for nor the identifier, and the first run leaves the values by which groups refer to the entry
as they were, then the second run succeeds with the same result, changes time stamps at most and
modifies no other entry below a base context. -/
theorem update_repeats (p : Provisioner) (entryClass : EntryClass) (uid uid' again : String)
    (attributes : List InputAttribute) (dir after : Directory) (dn : Dn) (e : Entry) (input : Input)
    (hresolve : (dir.run (p.resolve entryClass uid)).1 = .ok dn) (hentry : dir.entry? dn = some e)
    (hinput : Input.partition .update attributes = .ok input) (hplain : p.Plain input)
    (h : p.Repeatable dir input)
    (hidentifier : p.identifiesByName entryClass = true ∨
      ¬ Text.same "modifyTimestamp" (p.uidAttribute entryClass) = true)
    (hrun : dir.run (p.update entryClass uid attributes) = (.ok uid', after))
    (hkept : ∀ kind name, (input.requests.get kind).isUntouched = false →
      (p.descriptor kind).reference = .valueOf name →
        after.valuesAt dn name = dir.valuesAt dn name)
    (hresolve' : (after.run (p.resolve entryClass again)).1 = .ok dn) :
    ∃ final, after.run (p.update entryClass again attributes) = (.ok uid', final) ∧
      after.Alike final ∧ after.Sends (p.StaysAt after dn) final := by
  obtain ⟨hreferable, planned, settled, hquiet, hregroup, hidentify⟩ :=
    stages_of_update hplain hresolve hentry hinput hrun
  have hread := (p.keeps_unwritten_identify entryClass dn).of_run hidentify
  obtain ⟨e', hentry', -⟩ : ∃ e', settled.entry? dn = some e' ∧ e'.dn = e.dn := by
    have hname := (named_of_regroupAll hquiet hregroup).1 dn
    unfold Directory.storedName at hname
    unfold Directory.entry? at hentry
    rw [hentry] at hname
    exact Option.map_eq_some_iff.1 hname
  have hentry'' : after.entry? dn = some e' := (hread.entry?_eq dn).trans hentry'
  have hsettled := (h.settled hquiet hregroup hentry hreferable hentry' fun kind hsupplied =>
    referencesOf_congr fun name hreference => by
      have hvalues := hkept kind name hsupplied hreference
      rwa [Directory.valuesAt_of_entry? hentry, Directory.valuesAt_of_entry? hentry''] at hvalues)
      |>.quiet hread
  obtain ⟨planned', hquiet', hsecond⟩ :=
    run_update_plain hplain hresolve' hentry'' hinput hsettled.referable
  obtain ⟨last, hlast, hidle⟩ := hsettled.run_regroupAll hentry'' h.memberStamp
    ((p.idle_refl dn after).quiet hquiet')
  have hsame : (last.run (p.identify entryClass dn)).1 = .ok uid' :=
    hidle.run_identify hidentifier
      (((p.idle_refl dn settled).quiet hread).run_identify hidentifier (by rw [hidentify]))
  have hfinal := hidle.quiet (p.keeps_unwritten_identify entryClass dn last)
  refine ⟨_, ?_, hfinal.alike, hfinal.sends⟩
  rw [hsecond]
  exact Directory.run_bind_ok.2 ⟨(), last, hlast, Directory.run_of_result hsame⟩

end Provisioner

namespace Sample

/-- A group outside the base context. -/
def farTeam : Dn :=
  ⟨[.single "cn" "team", .single "dc" "y"]⟩

/-- A directory with an entry that has two references, and groups inside the base context and
outside. -/
def annAmongTeams : Directory :=
  directory [(name "uid" "ann", [("uid", ["ann", "anna"]), ("title", ["Dr"])]),
    (name "cn" "team", [("memberUid", ["ANNA"])]),
    (name "cn" "staff", [("memberUid", ["ann", "bob"])]),
    (farTeam, [("memberUid", ["bob"])])]

/-- An entry that gains a value, loses another and is to be in two groups. -/
def annSettles : List InputAttribute :=
  [⟨"sn", [.text "Lee"]⟩, ⟨"title", []⟩,
    ⟨"posixGroups", [.text "cn=team,dc=x", .text "cn=team,dc=y"]⟩]

/-- The input that these attributes make. -/
def annSettlesInput : Input where
  ordinary := .ofList [("sn", ["Lee"]), ("title", [])]
  requests := { posix := .replace [name "cn" "team", farTeam] }

/-- The directory after the first update. -/
def annSettled : Directory :=
  (annAmongTeams.run (provisioner.update .account "uid=ann,dc=x" annSettles)).2

theorem annSettles_plain : provisioner.Plain annSettlesInput where
  name := rfl
  enable := rfl
  password := rfl
  resetPassword := rfl
  references kind name := by cases kind <;> rintro ⟨⟩ <;> decide +kernel

theorem annSettles_repeatable : provisioner.Repeatable annAmongTeams annSettlesInput where
  kinds kind other := by cases kind <;> cases other <;> decide +kernel
  distinct := by decide +kernel
  members kind := by cases kind <;> decide +kernel
  memberStamp kind := by cases kind <;> decide +kernel

/-- The second update finds everything as it should be. -/
theorem annSettled_repeated :
    annSettled.valuesAt (name "cn" "team") "memberUid" = ["ann"] ∧
      annSettled.valuesAt farTeam "memberUid" = ["bob", "ann"] ∧
      ∃ final, annSettled.run (provisioner.update .account "uid=ann,dc=x" annSettles) =
          (.ok "uid=ann,dc=x", final) ∧
        annSettled.Alike final ∧
          annSettled.Sends (provisioner.StaysAt annSettled (name "uid" "ann")) final := by
  have hresolve : (annAmongTeams.run (provisioner.resolve .account "uid=ann,dc=x")).1 =
      .ok (name "uid" "ann") := by decide +kernel
  have hentry : annAmongTeams.entry? (name "uid" "ann") =
      some ⟨name "uid" "ann", .ofList [("uid", ["ann", "anna"]), ("title", ["Dr"])]⟩ := by
    decide +kernel
  have hinput : Input.partition .update annSettles = .ok annSettlesInput := by decide +kernel
  have hrun : annAmongTeams.run (provisioner.update .account "uid=ann,dc=x" annSettles) =
      (.ok "uid=ann,dc=x", annSettled) := Directory.run_of_result (by decide +kernel)
  refine ⟨by decide +kernel, by decide +kernel, ?_⟩
  refine Provisioner.update_repeats provisioner .account "uid=ann,dc=x" "uid=ann,dc=x"
    "uid=ann,dc=x" annSettles annAmongTeams annSettled (name "uid" "ann") _ annSettlesInput hresolve
    hentry hinput annSettles_plain annSettles_repeatable (.inl (by decide +kernel)) hrun
    (fun kind reference _ hreference => ?_) (by decide +kernel)
  refine Provisioner.valuesAt_of_update annSettles_plain hresolve hentry hinput hrun
    (annSettles_plain.references kind reference hreference) ?_ (fun other _ => ?_) _
  · cases kind <;> cases hreference <;> decide +kernel
  · cases kind <;> cases hreference <;> cases other <;> decide +kernel

/-! ## Updates that churn -/

/-- What happens when an update is made again. -/
def repeated (p : Provisioner) (dir : Directory) (uid again : String)
    (attributes : List InputAttribute) : Except ProvisioningError String × Directory :=
  (dir.run (p.update .account uid attributes)).2.run (p.update .account again attributes)

/-- Under a usable configuration a plain update succeeds in a directory where every value has its
place, and the same update of the same entry does not leave everything as it is. -/
structure Churns (p : Provisioner) (dir : Directory) (uid again : String)
    (attributes : List InputAttribute) (dn : Dn) (input : Input) : Prop where
  valid : p.configuration.check = .ok ()
  kinds (kind other : MembershipKind) : kind ≠ other →
    ¬ Text.same (p.descriptor kind).memberAttribute (p.descriptor other).memberAttribute = true
  distinct (e : Entry) : e ∈ dir.entries.list → e.attributes.ValuesDistinct
  resolves : (dir.run (p.resolve .account uid)).1 = .ok dn
  stored : (dir.entry? dn).isSome = true
  reads : Input.partition .update attributes = .ok input
  plain : p.Plain input
  members (kind : MembershipKind) : input.ordinary.get? (p.descriptor kind).memberAttribute = none
  runs : ∃ uid', (dir.run (p.update .account uid attributes)).1 = .ok uid'
  resolvesAgain : ((dir.run (p.update .account uid attributes)).2.run
    (p.resolve .account again)).1 = .ok dn
  churns : ¬ ((repeated p dir uid again attributes).1 =
      (dir.run (p.update .account uid attributes)).1 ∧
    (dir.run (p.update .account uid attributes)).2.Alike (repeated p dir uid again attributes).2 ∧
    (dir.run (p.update .account uid attributes)).2.Sends
      (p.StaysAt (dir.run (p.update .account uid attributes)).2 dn)
      (repeated p dir uid again attributes).2)

/-- A directory with an entry whose mail address comes before its identifier. -/
def zoeBesideTeam : Directory :=
  directory [(name "uid" "zoe", [("uid", ["zoe"]), ("mail", ["ann@x"])]),
    (name "cn" "team", [("cn", ["team"])])]

/-- An entry that joins itself and another group. -/
def zoeJoinsBoth : List InputAttribute :=
  [⟨"posixGroups", [.text "cn=team,dc=x"]⟩, ⟨"aliasGroups", [.text "uid=zoe,dc=x"]⟩]

/-- A directory with an entry that has been written before, and a group. -/
def oldAnnBesideTeam : Directory :=
  directory [(name "uid" "ann",
      [("uid", ["ann"]), ("objectClass", ["inetOrgPerson"]), ("modifyTimestamp", ["then"])]),
    (name "cn" "team", [("cn", ["team"])])]

/-- The provisioner that knows entries by their time stamps, under a clock that moves on. -/
def stampIdentifiers : Provisioner :=
  { provisioner with
    configuration := { provisioner.configuration with uidAttribute := "modifyTimestamp" }
    supply := { provisioner.supply with time := fun n => if n < 2 then "first" else "second" } }

/-- The second update modifies a group once more if the server writes its time stamp over the member,
moves a membership if the first has made another reference the least or the time stamp is the
reference, and returns another identifier if that is the time stamp. -/
theorem updates_churn :
    Churns stamped annBesideTeam "cn=ann,dc=x" "cn=ann,dc=x"
        [⟨"ldapGroups", [.text "cn=team,dc=x"]⟩] (name "cn" "ann") (listing .static) ∧
      Churns uidMembers zoeBesideTeam "uid=zoe,dc=x" "uid=zoe,dc=x" zoeJoinsBoth (name "uid" "zoe")
        { requests :=
            { posix := .replace [name "cn" "team"], mailAlias := .replace [name "uid" "zoe"] } } ∧
      Churns stampReferences oldAnnBesideTeam "uid=ann,dc=x" "uid=ann,dc=x" annMarries
        (name "uid" "ann")
        { ordinary := .ofList [("sn", ["Lee"])]
          requests := { mailAlias := .replace [name "cn" "team"] } } ∧
      Churns stampIdentifiers oldAnnBesideTeam "then" "first" [⟨"sn", [.text "Lee"]⟩]
        (name "uid" "ann") { ordinary := .ofList [("sn", ["Lee"])] } := by
  have hplain {p : Provisioner} {ordinary : Attributes} {requests : GroupRequests}
      (hreferences : ∀ kind name, (p.descriptor kind).reference = .valueOf name →
        ordinary.get? name = none) : p.Plain { ordinary, requests } :=
    ⟨rfl, rfl, rfl, rfl, hreferences⟩
  refine ⟨?_, ?_, ?_, ?_⟩
  · refine ⟨by decide +kernel, fun kind other => by cases kind <;> cases other <;> decide +kernel,
      by decide +kernel, by decide +kernel, by decide +kernel, by decide +kernel,
      hplain fun _ _ _ => rfl, fun _ => rfl, ⟨"cn=ann,dc=x", by decide +kernel⟩, by decide +kernel,
      ?_⟩
    rintro ⟨-, -, hsends⟩
    exact absurd hsends.of_mem_drop (by decide +kernel)
  · refine ⟨by decide +kernel, fun kind other => by cases kind <;> cases other <;> decide +kernel,
      by decide +kernel, by decide +kernel, by decide +kernel, by decide +kernel,
      hplain fun _ _ _ => rfl, fun _ => rfl, ⟨"uid=zoe,dc=x", by decide +kernel⟩, by decide +kernel,
      ?_⟩
    rintro ⟨-, halike, -⟩
    have hstamp : ¬ Text.same "modifyTimestamp" "memberUid" = true := by decide +kernel
    exact absurd (halike.valuesAt_eq hstamp (name "cn" "team")) (by decide +kernel)
  · refine ⟨by decide +kernel, fun kind other => by cases kind <;> cases other <;> decide +kernel,
      by decide +kernel, by decide +kernel, by decide +kernel, by decide +kernel,
      hplain fun kind name => ?_, fun kind => by cases kind <;> decide +kernel,
      ⟨"uid=ann,dc=x", by decide +kernel⟩, by decide +kernel, ?_⟩
    · cases kind <;> rintro ⟨⟩ <;> decide +kernel
    rintro ⟨-, halike, -⟩
    have hstamp : ¬ Text.same "modifyTimestamp" "rfc822MailMember" = true := by decide +kernel
    exact absurd (halike.valuesAt_eq hstamp (name "cn" "team")) (by decide +kernel)
  · refine ⟨by decide +kernel, fun kind other => by cases kind <;> cases other <;> decide +kernel,
      by decide +kernel, by decide +kernel, by decide +kernel, by decide +kernel,
      hplain fun kind name => ?_, fun kind => by cases kind <;> decide +kernel,
      ⟨"first", by decide +kernel⟩, by decide +kernel, ?_⟩
    · cases kind <;> rintro ⟨⟩ <;> decide +kernel
    rintro ⟨hresult, -⟩
    exact absurd hresult (by decide +kernel)

end Sample

end Roster
