import Roster.Proofs.Replacing

/-!
# Memberships that follow changed references

When an update supplies the reference attribute of a kind that is maintained, the memberships under
references that the entry loses move to the least of the new ones. `update_follows` says that the
requests for this succeed, what the groups hold afterwards, and that no other group is asked to
change (`PassesBy`). The server's time stamp must not be what groups hold their members under
(`stamped_references_lost`).
-/

namespace Roster

open Directory (Touched HoldsAt Sends)

/-! ## Attributes that nothing is asked of -/

/-- The request modifies an attribute of the entry at a name. -/
def Request.Modifies (request : Request) (dn : Dn) (name : String) : Prop :=
  ∃ target items, request = .modify target items ∧ target.key = dn.key ∧
    ∃ item ∈ items, Text.same item.name name = true

/-- Between two moments an attribute of the entry at a name was neither changed nor asked to
change. -/
structure PassesBy (dn : Dn) (name : String) (dir after : Directory) : Prop where
  spares : Spares dn name dir after
  sends : Sends (fun request => ¬ request.Modifies dn name) dir after

theorem passesBy_frame (dn : Dn) (name : String) : Frame (PassesBy dn name) where
  refl dir := ⟨(spares_frame dn name).refl dir, (Directory.sends_frame _).refl dir⟩
  trans hab hbc := ⟨(spares_frame dn name).trans hab.spares hbc.spares,
    (Directory.sends_frame _).trans hab.sends hbc.sends⟩

theorem Directory.Unwritten.passesBy {dir after : Directory} (h : dir.Unwritten after) (dn : Dn)
    (name : String) : PassesBy dn name dir after := by
  refine ⟨h.spares dn name, h.sends fun request hquiet => ?_⟩
  rintro ⟨target, items, rfl, -⟩
  cases hquiet

theorem keeps_passesBy_modify {supply : Supply} {dn target : Dn} {name : String}
    {items : List Modification} (htime : ¬ Text.same "modifyTimestamp" name = true)
    (hitems : target.key = dn.key → ∀ item ∈ items, ¬ Text.same item.name name = true) :
    Keeps (PassesBy dn name) (Directory.modify supply target items) := by
  intro dir
  refine ⟨keeps_spares_modify htime hitems dir, Directory.keeps_sends_perform ?_ dir⟩
  rintro ⟨_, _, hrequest, hkey, item, hitem, hname⟩
  cases hrequest
  exact hitems hkey item hitem hname

/-- A diff passes by the groups that are not in it, and all other attributes. -/
theorem KindDescriptor.keeps_passesBy_applyDiff {d : KindDescriptor} {supply : Supply} {dn : Dn}
    {name : String} {diff : Diff GroupMembership}
    (htime : ¬ Text.same "modifyTimestamp" name = true)
    (hdiff : ∀ m, m ∈ diff.removed ∨ m ∈ diff.added → m.group.key = dn.key →
      ¬ Text.same d.memberAttribute name = true) :
    Keeps (PassesBy dn name) (d.applyDiff supply diff) := by
  refine (passesBy_frame dn name).keeps_applyDiff (fun m hm => ?_) fun m hm =>
    (passesBy_frame dn name).keeps_addMembership ?_
  · refine keeps_passesBy_modify htime fun hkey item hitem => ?_
    rw [List.mem_singleton.1 hitem]
    exact hdiff m (.inl hm) hkey
  · refine keeps_passesBy_modify htime fun hkey item hitem => ?_
    rw [List.mem_singleton.1 hitem]
    exact hdiff m (.inr hm) hkey

/-- A group whose member attribute is spared holds the references that it held. -/
theorem Spares.holds {d : KindDescriptor} {dn : Dn} {group : Entry} {dir after : Directory}
    (h : Spares dn d.memberAttribute dir after) (hgroup : dir.entry? dn = some group) :
    ∃ group', after.entry? dn = some group' ∧
      ∀ reference, d.Holds group' reference ↔ d.Holds group reference := by
  obtain ⟨group', hgroup', hvalues⟩ := h.stored hgroup
  refine ⟨group', hgroup', fun reference => ?_⟩
  rw [KindDescriptor.Holds, hvalues, KindDescriptor.Holds]

namespace Provisioner

variable {p : Provisioner} {dn : Dn} {e : Entry} {dir : Directory} {kind : MembershipKind}
  {ordinary : Attributes}

theorem keeps_passesBy_modifyValues {target : Dn} {name : String}
    (htime : ¬ Text.same "modifyTimestamp" name = true) (hnone : ordinary.get? name = none) :
    Keeps (PassesBy target name) (p.modifyValues dn .replace ordinary) := by
  refine (passesBy_frame target name).keeps_sendItems
    (keeps_passesBy_modify htime fun _ item hitem hname => ?_)
  obtain ⟨pair, hpair, rfl⟩ := List.mem_map.1 hitem
  have hsome := AttributePairs.get?_of_mem ordinary.distinct hpair hname
  rw [Attributes.get?, hsome] at hnone
  cases hnone

/-! ## Updates of ordinary attributes -/

/-- What the maintenance of references relies on: the kinds have member attributes of their own, the
directory can be written and has no value in two spellings, and the update writes no member
attribute and gives up no references. -/
structure Maintainable (p : Provisioner) (dir : Directory) (ordinary : Attributes) : Prop where
  kinds (kind other : MembershipKind) : kind ≠ other →
    ¬ Text.same (p.descriptor kind).memberAttribute (p.descriptor other).memberAttribute = true
  denied : dir.denied = []
  distinct (group : Entry) : group ∈ dir.entries.list →
    ∀ pair ∈ group.attributes.pairs, Text.Distinct pair.2
  members (kind : MembershipKind) : ordinary.get? (p.descriptor kind).memberAttribute = none
  references (kind : MembershipKind) (name : String) :
    (p.descriptor kind).reference = .valueOf name → ordinary.get? name ≠ some []

/-- An update that supplies ordinary attributes only replaces them and moves memberships. -/
theorem PlannedInFull.carryOut_eq {entries : Entries} {plan : UpdatePlan}
    (h : PlannedInFull p dn e entries { ordinary } plan) :
    ∃ posix mailAlias,
      p.MovesFollowers .posix dn e entries (p.plannedReferences dn { ordinary } .posix) posix ∧
      p.MovesFollowers .mailAlias dn e entries
        (p.plannedReferences dn { ordinary } .mailAlias) mailAlias ∧
      plan.dn = dn ∧ plan.ordinary = ordinary ∧
      plan.references = [⟨.posix, posix, []⟩, ⟨.mailAlias, mailAlias, []⟩] ∧
      p.carryOut plan = (do
        p.modifyValues dn .replace ordinary
        (p.descriptor .posix).applyDiff p.supply posix
        (p.descriptor .mailAlias).applyDiff p.supply mailAlias
        return dn) := by
  obtain ⟨_, _, hreferences, honlyPosix, honlyAlias⟩ := h.follows
  obtain ⟨posix, rfl, hposix⟩ := honlyPosix rfl
  obtain ⟨mailAlias, rfl, halias⟩ := honlyAlias rfl
  have hpassword : plan.password = none := by
    cases hstored : plan.password with
    | none => rfl
    | some stored =>
      have hasked := h.password.1 (by rw [hstored]; rfl)
      rcases hasked with hreset | hgiven
      · cases hreset
      · cases hgiven
  obtain ⟨hnaming, hordinary⟩ : plan.naming = [] ∧ plan.ordinary = ordinary :=
    Prod.mk.inj h.split_eq
  have hrename : plan.rename = none := h.rename_eq
  have hstatic : staticDiff plan dn = {} := by
    have hfollow : plan.followRename = false := h.followRename_eq
    have huntouched : plan.static.isUntouched = true := by
      rw [h.static_eq]
      rfl
    rw [staticDiff, hfollow, huntouched]
    rfl
  refine ⟨posix, mailAlias, hposix, halias, h.dn_eq, hordinary, hreferences, ?_⟩
  have hsend : p.sendItems dn [] = pure () := rfl
  have hnothing : (liftM ((p.descriptor .static).applyDiff p.supply {}) : Action Unit) = pure () :=
    rfl
  have hwrite : p.writePassword dn .replace none = pure () := rfl
  unfold carryOut settle
  rw [h.dn_eq, hordinary, hrename]
  simp only [move, pure_bind, hnaming, hstatic, hreferences, hpassword, hsend, hnothing,
    List.forM_eq_forM, List.forM_cons, List.forM_nil, applyReferences_known, hwrite, bind_assoc]

/-! ## Stages of the update -/

variable {references : Option (List String)} {diff : Diff GroupMembership}

/-- The followers are the memberships under references that are not among the new ones. -/
theorem mem_followers {entries : Entries} {new : List String} {m : GroupMembership}
    (hmaintained : (p.descriptor kind).maintained = true) :
    m ∈ p.followers kind dn e entries (some new) ↔
      m ∈ p.membershipsOf kind dn e entries ∧ m.reference ∉ new := by
  unfold followers staleMemberships
  dsimp only
  rw [if_pos hmaintained, List.mem_filter, List.contains_iff_mem, List.mem_filter]
  constructor
  · rintro ⟨hm, -, hlost⟩
    refine ⟨hm, fun hmem => ?_⟩
    rw [List.contains_iff_mem.2 hmem] at hlost
    cases hlost
  · rintro ⟨hm, hlost⟩
    refine ⟨hm, reference_of_mem_membershipsOf hm, ?_⟩
    rw [Bool.not_eq_true', ← Bool.not_eq_true, List.contains_iff_mem]
    exact hlost

theorem mem_membershipsOf_of_mem_followers {entries : Entries} {m : GroupMembership}
    (hm : m ∈ p.followers kind dn e entries references) :
    m ∈ p.membershipsOf kind dn e entries := by
  unfold followers at hm
  split at hm
  · split at hm
    · exact (List.mem_filter.1 hm).1
    · cases hm
  · cases hm

/-- The followers of a kind can be moved, whatever happened to other attributes before. -/
theorem MovesFollowers.run_applyDiff {sort : String → Prop} {before : Directory}
    (h : p.MovesFollowers kind dn e dir.entries references diff)
    (hmaintainable : p.Maintainable dir ordinary) (hstored : dir.entry? dn = some e)
    (hstamp : ¬ Text.same "modifyTimestamp" (p.descriptor kind).memberAttribute = true)
    (htouched : Touched sort dir before) (hsort : ¬ sort (p.descriptor kind).memberAttribute) :
    ∃ done, before.run ((p.descriptor kind).applyDiff p.supply diff) = (.ok (), done) ∧
      Touched (fun other => Text.same (p.descriptor kind).memberAttribute other = true)
        before done ∧
      ∀ x value, done.HoldsAt (p.descriptor kind).memberAttribute x value ↔
        diff.Leaves (p.descriptor kind).memberAttribute dir x value := by
  obtain ⟨reference, rfl, -⟩ := h
  have hvalues (x : Dn) := htouched.others x _ hsort hstamp
  have hentry := (dir.entries.get?_eq_some_iff.1 hstored).1
  have hfeasible : p.Feasible kind dn e dir
      (moveTo reference (p.followers kind dn e dir.entries references)) :=
    feasible_moveTo reference fun m hm => mem_membershipsOf_of_mem_followers hm
  have hadmissible := hfeasible.admissible
    (Text.distinct_values (hmaintainable.distinct e hentry))
  obtain ⟨done, hrun, hrewritten⟩ := KindDescriptor.run_applyDiff p.supply hstamp
    (htouched.denied.trans hmaintainable.denied)
    (fun x => by
      rw [hvalues, Directory.valuesAt]
      split
      · next group hgroup =>
        exact Text.distinct_values
          (hmaintainable.distinct group (dir.entries.get?_eq_some_iff.1 hgroup).1) _
      · exact List.nodup_nil)
    (hadmissible.touched htouched hsort hstamp)
  refine ⟨done, hrun, hrewritten.touched, fun x value => (hrewritten.holds x value).trans ?_⟩
  rw [Diff.Leaves, HoldsAt, hvalues, Diff.Leaves, HoldsAt]

/-! ## The outcome -/

/-- The groups of a kind as the maintenance of references leaves them, where `new` are the references
that an entry has then and `reference` is the least of them. -/
structure Followed (p : Provisioner) (kind : MembershipKind) (e : Entry) (name : String)
    (new : List String) (reference : String) (dir after : Directory) : Prop where
  /-- Groups below the base contexts that held a lost reference hold the least new one, and no lost
  reference that is not a spelling of it. -/
  moved (group : Entry) : group ∈ dir.entries.list → p.InScope group.dn →
    (∃ o ∈ e.attributes.values name, o ∉ new ∧ (p.descriptor kind).Holds group o) →
    ∃ group', after.entry? group.dn = some group' ∧ (p.descriptor kind).Holds group' reference ∧
      ∀ o ∈ e.attributes.values name, o ∉ new → (p.descriptor kind).Holds group' o →
        Text.same o reference = true
  /-- Groups that held no lost reference are left alone. -/
  spared (group : Entry) : group ∈ dir.entries.list →
    (∀ o ∈ e.attributes.values name, o ∉ new → ¬ (p.descriptor kind).Holds group o) →
    PassesBy group.dn (p.descriptor kind).memberAttribute dir after

/-- A lost reference that a group below the base contexts holds has a follower. -/
theorem exists_follower {name : String} {new : List String} {group : Entry} {o : String}
    (hvalue : (p.descriptor kind).reference = .valueOf name)
    (hmaintained : (p.descriptor kind).maintained = true)
    (hdistinct : ∀ name, Text.Distinct (e.attributes.values name))
    (hgroup : group ∈ dir.entries.list) (hscope : p.InScope group.dn)
    (ho : o ∈ e.attributes.values name) (hlost : o ∉ new)
    (hholds : (p.descriptor kind).Holds group o) :
    ∃ m ∈ p.followers kind dn e dir.entries (some new), m.Covers group.dn o := by
  have hentry : dir.entry? group.dn = some group := dir.entries.get?_eq_some_iff.2 ⟨hgroup, rfl⟩
  have hown : o ∈ (p.descriptor kind).ownReferences dn e := by
    rw [KindDescriptor.ownReferences, hvalue]
    exact ho
  have hheld := (Directory.holdsAt_iff hentry (p.descriptor kind).memberAttribute o).2 hholds
  obtain ⟨m, hm, hcovers⟩ :=
    (exists_covers_iff hheld).2 ⟨⟨group, hentry, hscope⟩, o, hown, Text.same_refl o⟩
  refine ⟨m, (mem_followers hmaintained).2 ⟨hm, ?_⟩, hcovers⟩
  have hsame : m.reference = o := KindDescriptor.eq_of_same_references hdistinct
    (reference_of_mem_membershipsOf hm) (KindDescriptor.mem_ownReferences.1 hown) hcovers.2
  rw [hsame]
  exact hlost

/-- What the groups hold once the followers have been moved. -/
theorem followed_moved {name reference : String} {new : List String} {after : Directory}
    (hvalue : (p.descriptor kind).reference = .valueOf name)
    (hmaintained : (p.descriptor kind).maintained = true)
    (hdistinct : ∀ name, Text.Distinct (e.attributes.values name))
    (hleaves : ∀ x value, after.HoldsAt (p.descriptor kind).memberAttribute x value ↔
      (moveTo reference (p.followers kind dn e dir.entries (some new))).Leaves
        (p.descriptor kind).memberAttribute dir x value)
    {group : Entry} (hgroup : group ∈ dir.entries.list) (hscope : p.InScope group.dn)
    (hused : ∃ o ∈ e.attributes.values name, o ∉ new ∧ (p.descriptor kind).Holds group o) :
    ∃ group', after.entry? group.dn = some group' ∧ (p.descriptor kind).Holds group' reference ∧
      ∀ o ∈ e.attributes.values name, o ∉ new → (p.descriptor kind).Holds group' o →
        Text.same o reference = true := by
  obtain ⟨o, ho, hlost, hholds⟩ := hused
  obtain ⟨m, hm, hkey, -⟩ :=
    exists_follower hvalue hmaintained hdistinct hgroup hscope ho hlost hholds
  have hnew : after.HoldsAt (p.descriptor kind).memberAttribute group.dn reference := by
    obtain ⟨a, ha, heq⟩ : ∃ a ∈ (moveTo reference (p.followers kind dn e dir.entries
        (some new))).added, (a == ⟨reference, m.group⟩) = true :=
      OrderedSet.exists_mem_insertAll [] (List.mem_map.2 ⟨m, hm, rfl⟩)
    refine (hleaves _ _).2 (.inr ⟨a, ha, GroupMembership.Covers.congr heq ?_⟩)
    exact ⟨hkey, Text.same_refl reference⟩
  obtain ⟨group', hentry', hnew'⟩ := Directory.exists_entry_of_holdsAt hnew
  refine ⟨group', hentry', hnew', fun o' ho' hlost' hholds' => ?_⟩
  rcases (hleaves group.dn o').1 ((Directory.holdsAt_iff hentry' _ _).2 hholds') with
    ⟨hheld, hkept⟩ | ⟨a, ha, -, hsame⟩
  · -- A lost reference that the group held before has been removed.
    have hentry : dir.entry? group.dn = some group := dir.entries.get?_eq_some_iff.2 ⟨hgroup, rfl⟩
    obtain ⟨m', hm', hcovers⟩ := exists_follower hvalue hmaintained hdistinct hgroup hscope ho'
      hlost' ((Directory.holdsAt_iff hentry _ _).1 hheld)
    obtain ⟨r, hr, heq⟩ : ∃ r ∈ (moveTo reference (p.followers kind dn e dir.entries
        (some new))).removed, (r == m') = true := OrderedSet.exists_mem_insertAll [] hm'
    exact absurd ⟨r, hr, hcovers.congr heq⟩ hkept
  · obtain ⟨_, -, rfl⟩ := List.mem_map.1 (OrderedSet.mem_of_mem_insertAll_nil ha)
    exact Text.same_symm hsame

/-- The followers lie in groups that hold a lost reference. -/
theorem holds_of_mem_followers {name : String} {new : List String} {group : Entry}
    {m : GroupMembership} (hvalue : (p.descriptor kind).reference = .valueOf name)
    (hmaintained : (p.descriptor kind).maintained = true) (hgroup : group ∈ dir.entries.list)
    (hm : m ∈ p.followers kind dn e dir.entries (some new)) (hkey : m.group.key = group.dn.key) :
    ∃ o ∈ e.attributes.values name, o ∉ new ∧ (p.descriptor kind).Holds group o := by
  obtain ⟨hmem, hlost⟩ := (mem_followers hmaintained).1 hm
  have hown := (KindDescriptor.mem_referencesOf hvalue).1 (reference_of_mem_membershipsOf hmem)
  refine ⟨m.reference, hown, hlost, ?_⟩
  have hentry : dir.entry? m.group = some group :=
    dir.entries.get?_eq_some_iff.2 ⟨hgroup, hkey.symm⟩
  exact (Directory.holdsAt_iff hentry _ _).1 (holdsAt_of_mem_membershipsOf hmem)

/-- In the run of a plan without a move the memberships of a kind get their turn, and all requests
for them succeed. -/
def Succeeds (p : Provisioner) (plan : UpdatePlan) (planned : Directory) (kind : MembershipKind) :
    Prop :=
  ∃ front diff rest before done, plan.references = front ++ ⟨kind, diff, []⟩ :: rest ∧
    planned.run (p.modifyValues plan.dn .replace plan.ordinary >>= fun _ =>
      front.forM (p.applyReferences plan.dn)) = (.ok (), before) ∧
    before.run ((p.descriptor kind).applyDiff p.supply diff) = (.ok (), done)

/-- An update of ordinary attributes that gives up no references cannot be refused. -/
theorem Maintainable.not_refusable (h : p.Maintainable dir ordinary) :
    ¬ p.Refusable dn e { ordinary } := by
  rintro (hreset | hgiven | ⟨kind, hkind, hnone | hasked⟩)
  · cases hreset
  · cases hgiven
  · obtain ⟨name, hvalue⟩ := p.exists_valueOf hkind
    exact h.references kind name hvalue ((plannedReferences_eq_nil hvalue).1 hnone).1
  · cases kind <;> exact hasked.1 rfl

/-- **The turn of a kind** comes when attributes have changed that are not its member attribute, and
what is sent after it spares this attribute. -/
theorem PlannedInFull.turn (entryClass : EntryClass) {plan : UpdatePlan} {planned : Directory}
    (h : PlannedInFull p dn e dir.entries { ordinary } plan)
    (hmaintainable : p.Maintainable dir ordinary) (hstored : dir.entry? dn = some e)
    (hkind : kind ≠ .static) (hquiet : dir.Unwritten planned)
    (hstamp : ¬ Text.same "modifyTimestamp" (p.descriptor kind).memberAttribute = true) :
    ∃ front diff rest before sort, plan.references = front ++ ⟨kind, diff, []⟩ :: rest ∧
      p.MovesFollowers kind dn e dir.entries (p.plannedReferences dn { ordinary } kind) diff ∧
      planned.run (p.modifyValues plan.dn .replace plan.ordinary >>= fun _ =>
        front.forM (p.applyReferences plan.dn)) = (.ok (), before) ∧
      Touched sort dir before ∧ ¬ sort (p.descriptor kind).memberAttribute ∧
      ∃ tail : Action String, planned.run (p.carryOut plan >>= p.identify entryClass) =
          before.run (liftM ((p.descriptor kind).applyDiff p.supply diff) >>= fun _ => tail) ∧
        ∀ x, Keeps (Spares x (p.descriptor kind).memberAttribute) tail := by
  obtain ⟨posix, mailAlias, hposix, halias, hdn, hordinary, hreferences, hcarry⟩ := h.carryOut_eq
  have hspares (x : Dn) (name : String) :
      Keeps (Spares x name) (p.identify entryClass dn) :=
    fun mid => (p.keeps_unwritten_identify entryClass dn mid).spares x name
  have hthere : planned.Stored dn := by
    rw [Directory.Stored, hquiet.1]
    exact Option.isSome_iff_exists.2 ⟨e, hstored⟩
  have hsends : ∃ sent, planned.run (p.modifyValues dn .replace ordinary) = (.ok (), sent) ∧
      Touched (fun name => ordinary.get? name ≠ none) planned sent :=
    run_modifyValues_touched (hquiet.2.1.trans hmaintainable.denied) hthere ordinary
  obtain ⟨sent, hsend, hsent⟩ := hsends
  replace hsent := (Directory.touched_frame _).trans (hquiet.touched _) hsent
  have hwritten (kind : MembershipKind) :
      ¬ ordinary.get? (p.descriptor kind).memberAttribute ≠ none :=
    not_not.2 (hmaintainable.members kind)
  rw [hdn, hordinary, hreferences, hcarry]
  cases kind with
  | static => exact absurd rfl hkind
  | posix =>
    refine ⟨[], posix, [⟨.mailAlias, mailAlias, []⟩], sent, _, rfl, hposix, ?_, hsent,
      hwritten .posix, liftM ((p.descriptor .mailAlias).applyDiff p.supply mailAlias) >>=
        fun _ => p.identify entryClass dn, ?_, fun x => ?_⟩
    · exact Directory.run_bind_ok.2 ⟨(), sent, hsend, rfl⟩
    · simp only [bind_assoc, pure_bind]
      rw [Directory.run_bind, hsend]
    · refine (spares_frame x _).keeps_bind (Keeps.lift fun mid => ?_) fun _ => hspares x _
      exact (KindDescriptor.keeps_passesBy_applyDiff hstamp
        (fun _ _ _ => hmaintainable.kinds .mailAlias .posix (by decide)) mid).spares
  | mailAlias =>
    obtain ⟨mid, hrun, hmid, -⟩ := hposix.run_applyDiff hmaintainable hstored
      (show ¬ Text.same "modifyTimestamp" "memberUid" = true by decide) hsent (hwritten .posix)
    refine ⟨[⟨.posix, posix, []⟩], mailAlias, [], mid,
      fun name => ordinary.get? name ≠ none ∨
        Text.same (p.descriptor .posix).memberAttribute name = true, rfl, halias, ?_, ?_, ?_,
      p.identify entryClass dn, ?_, fun x => hspares x _⟩
    · refine Directory.run_bind_ok.2 ⟨(), sent, hsend, ?_⟩
      exact Directory.run_bind_ok.2 ⟨(), mid, run_applyReferences hrun, rfl⟩
    · exact (Directory.touched_frame _).trans (hsent.mono fun _ => .inl)
        (hmid.mono fun _ => .inr)
    · rintro (hnone | hsame)
      · exact hwritten .mailAlias hnone
      · exact hmaintainable.kinds .posix .mailAlias (by decide) hsame
    · have hlift : sent.run (liftM ((p.descriptor .posix).applyDiff p.supply posix) : Action Unit) =
          (.ok (), mid) := by rw [Directory.run_lift, hrun]; rfl
      simp only [bind_assoc, pure_bind]
      rw [Directory.run_bind, hsend]
      dsimp only
      rw [Directory.run_bind, hlift]

/-- The followers move to the least new reference, if there is one. -/
theorem MovesFollowers.eq_moveTo {new : List String} {entries : Entries} {reference : String}
    (h : p.MovesFollowers kind dn e entries (some new) diff)
    (hleast : canonicalReference? new = some reference) :
    diff = moveTo reference (p.followers kind dn e entries (some new)) := by
  obtain ⟨other, rfl, hother⟩ := h
  by_cases hnone : p.followers kind dn e entries (some new) = []
  · rw [hnone]
    rfl
  · have hsame : some other = some reference := (hother hnone).symm.trans hleast
    rw [Option.some.inj hsame]

theorem Followed.congr {name reference : String} {new new' : List String} {after : Directory}
    (h : p.Followed kind e name new reference dir after) (hmem : ∀ o, o ∈ new ↔ o ∈ new') :
    p.Followed kind e name new' reference dir after where
  moved group hgroup hscope hused := by
    simp only [← hmem] at hused ⊢
    exact h.moved group hgroup hscope hused
  spared group hgroup hunused := by
    simp only [← hmem] at hunused
    exact h.spared group hgroup hunused

/-- A diff that moves memberships is about their groups only. -/
theorem exists_group_of_mem_moveTo {reference : String} {stale : List GroupMembership}
    {m : GroupMembership}
    (hm : m ∈ (moveTo reference stale).removed ∨ m ∈ (moveTo reference stale).added) :
    ∃ old ∈ stale, old.group = m.group := by
  rcases hm with hm | hm
  · exact ⟨m, OrderedSet.mem_of_mem_insertAll_nil hm, rfl⟩
  · obtain ⟨old, hold, rfl⟩ := List.mem_map.1 (OrderedSet.mem_of_mem_insertAll_nil hm)
    exact ⟨old, hold, rfl⟩

/-- An update of ordinary attributes passes by the groups without followers. -/
theorem PlannedInFull.keeps_passesBy_carryOut {plan : UpdatePlan} {x : Dn}
    (h : PlannedInFull p dn e dir.entries { ordinary } plan)
    (hmaintainable : p.Maintainable dir ordinary)
    (hstamp : ¬ Text.same "modifyTimestamp" (p.descriptor kind).memberAttribute = true)
    (hnone : ∀ m ∈ p.followers kind dn e dir.entries (p.plannedReferences dn { ordinary } kind),
      m.group.key ≠ x.key) :
    Keeps (PassesBy x (p.descriptor kind).memberAttribute) (p.carryOut plan) := by
  obtain ⟨posix, mailAlias, hposix, halias, -, -, -, hcarry⟩ := h.carryOut_eq
  have frame := passesBy_frame x (p.descriptor kind).memberAttribute
  have hdiff {other : MembershipKind} {diff : Diff GroupMembership}
      (hmoves : p.MovesFollowers other dn e dir.entries
        (p.plannedReferences dn { ordinary } other) diff) :
      Keeps (PassesBy x (p.descriptor kind).memberAttribute)
        (liftM ((p.descriptor other).applyDiff p.supply diff) : Action Unit) := by
    refine (KindDescriptor.keeps_passesBy_applyDiff hstamp fun m hm hkey => ?_).lift
    by_cases hother : other = kind
    · subst hother
      obtain ⟨reference, rfl, -⟩ := hmoves
      obtain ⟨old, hold, hgroup⟩ := exists_group_of_mem_moveTo hm
      exact absurd (hgroup ▸ hkey) (hnone old hold)
    · exact hmaintainable.kinds other kind hother
  rw [hcarry]
  refine frame.keeps_bind
    (keeps_passesBy_modifyValues hstamp (hmaintainable.members kind)) fun _ => ?_
  exact frame.keeps_bind (hdiff hposix) fun _ =>
    frame.keeps_bind (hdiff halias) fun _ => frame.keeps_pure _

/-- An update of ordinary attributes that gives up no references carries out its plan. -/
theorem Maintainable.exists_plan (h : p.Maintainable dir ordinary) {entryClass : EntryClass}
    {uid : String} {attributes : List InputAttribute}
    (hresolve : (dir.run (p.resolve entryClass uid)).1 = .ok dn)
    (hstored : dir.entry? dn = some e)
    (hinput : Input.partition .update attributes = .ok { ordinary }) :
    ∃ plan planned, PlannedInFull p dn e dir.entries { ordinary } plan ∧ dir.Unwritten planned ∧
      dir.run (p.update entryClass uid attributes) =
        planned.run (p.carryOut plan >>= p.identify entryClass) := by
  rcases update_plans (E := fun _ => False) hresolve (.stored hstored) hinput
    (fun hrefusable => absurd hrefusable h.not_refusable) with ⟨_, _, _, hfalse, _⟩ | hplans
  · exact hfalse.elim
  · exact hplans

/-- One of the references that are supplied and those in the name is the least. -/
theorem Maintainable.exists_least (h : p.Maintainable dir ordinary) {name : String}
    {supplied : List String} (hvalue : (p.descriptor kind).reference = .valueOf name)
    (hsupplied : ordinary.get? name = some supplied) (named : List String) :
    ∃ reference, canonicalReference? (OrderedSet.insertAll named supplied) = some reference := by
  have hsome : supplied ≠ [] := fun hempty =>
    h.references kind name hvalue (hempty ▸ hsupplied)
  exact Option.ne_none_iff_exists'.1 fun hnone =>
    OrderedSet.insertAll_ne_nil.2 (.inr hsome) (canonicalReference?_eq_none.1 hnone)

/-- **Memberships follow the references that an update supplies**, if the kind is maintained and does
not keep its members under the name of the time stamp: all requests for them succeed, those under
lost references move to the least of the new ones, and other groups are left alone. -/
theorem update_follows {entryClass : EntryClass} {uid : String} {attributes : List InputAttribute}
    {name : String} {supplied : List String}
    (hresolve : (dir.run (p.resolve entryClass uid)).1 = .ok dn)
    (hstored : dir.entry? dn = some e)
    (hinput : Input.partition .update attributes = .ok { ordinary })
    (h : p.Maintainable dir ordinary)
    (hvalue : (p.descriptor kind).reference = .valueOf name)
    (hmaintained : (p.descriptor kind).maintained = true)
    (hsupplied : ordinary.get? name = some supplied)
    (hstamp : ¬ Text.same "modifyTimestamp" (p.descriptor kind).memberAttribute = true) :
    (∃ plan planned, Planned p dn e dir.entries { ordinary } plan ∧ dir.Unwritten planned ∧
      dir.run (p.update entryClass uid attributes) =
        planned.run (p.carryOut plan >>= p.identify entryClass) ∧
      p.Succeeds plan planned kind) ∧
    ∃ reference, Text.Least reference (dn.leafValues name ++ supplied) ∧
      p.Followed kind e name (dn.leafValues name ++ supplied) reference dir
        (dir.run (p.update entryClass uid attributes)).2 := by
  have hkind : kind ≠ .static := by
    rintro rfl
    cases hvalue
  have hdistinct := Text.distinct_values (h.distinct e (dir.entries.get?_eq_some_iff.1 hstored).1)
  obtain ⟨plan, planned, hplan, hquiet, hrun⟩ := h.exists_plan hresolve hstored hinput
  -- The references are those in the name and those supplied.
  have hnew : p.plannedReferences dn { ordinary } kind =
      some (OrderedSet.insertAll (dn.leafValues name) supplied) :=
    plannedReferences_of_listed hvalue hsupplied
  have hmem (o : String) : o ∈ OrderedSet.insertAll (dn.leafValues name) supplied ↔
      o ∈ dn.leafValues name ++ supplied := by
    rw [OrderedSet.mem_insertAll, List.mem_append]
  obtain ⟨reference, hleast⟩ := h.exists_least hvalue hsupplied (dn.leafValues name)
  obtain ⟨front, diff, rest, before, sort, hreferences, hmoves, hbefore, htouched, hsort, tail,
    hcarried, htail⟩ := hplan.turn entryClass h hstored hkind hquiet hstamp
  obtain ⟨done, happlied, -, hleaves⟩ := hmoves.run_applyDiff h hstored hstamp htouched hsort
  rw [hnew] at hmoves
  have hdiff := hmoves.eq_moveTo hleast
  refine ⟨⟨plan, planned, hplan.toPlanned, hquiet, hrun, front, diff, rest, before, done,
    hreferences, hbefore, happlied⟩, reference, (Text.least_of_least? hleast).congr hmem, ?_⟩
  refine Followed.congr ⟨fun group hgroup hscope hused => ?_, fun group hgroup hunused => ?_⟩ hmem
  · -- What follows the turn of the kind spares its member attribute.
    have hlast : (dir.run (p.update entryClass uid attributes)).2 = (done.run tail).2 := by
      have hlift : before.run (liftM ((p.descriptor kind).applyDiff p.supply diff) : Action Unit) =
          (.ok (), done) := by
        rw [Directory.run_lift, happlied]
        rfl
      rw [hrun, hcarried, Directory.run_bind, hlift]
    obtain ⟨group', hgroup', hholds, hgone⟩ := followed_moved hvalue hmaintained hdistinct
      (hdiff ▸ hleaves) hgroup hscope hused
    obtain ⟨group'', hgroup'', hsame⟩ := (htail group.dn done).holds hgroup'
    refine ⟨group'', ?_, (hsame _).2 hholds, fun o ho hlost hheld =>
      hgone o ho hlost ((hsame o).1 hheld)⟩
    rw [hlast]
    exact hgroup''
  · have hpasses : Keeps (PassesBy group.dn (p.descriptor kind).memberAttribute)
        (p.carryOut plan >>= p.identify entryClass) := by
      refine (passesBy_frame _ _).keeps_bind (hplan.keeps_passesBy_carryOut h hstamp ?_)
        fun landed mid => (p.keeps_unwritten_identify entryClass landed mid).passesBy _ _
      rw [hnew]
      intro m hm hkey
      obtain ⟨o, ho, hlost, hholds⟩ :=
        holds_of_mem_followers hvalue hmaintained hgroup hm hkey
      exact hunused o ho hlost hholds
    rw [hrun]
    exact (passesBy_frame _ _).trans (hquiet.passesBy _ _) (hpasses planned)

end Provisioner

namespace Sample

/-- The provisioner that lets POSIX memberships follow changed references. -/
def following : Provisioner :=
  { provisioner with
    configuration := { provisioner.configuration with maintainPosixGroupMembership := true } }

/-- A directory with an entry, a group that holds a reference of it, and one that does not. -/
def annaInTeam : Directory :=
  directory [(name "uid" "ann", [("uid", ["ann", "anna"])]),
    (name "cn" "team", [("memberUid", ["ANNA", "bob"])]),
    (name "cn" "staff", [("memberUid", ["bob"])])]

/-- The directory after an update has supplied another reference in place of one. -/
def annInTeamAfter : Directory :=
  (annaInTeam.run (following.update .account "uid=ann,dc=x" [⟨"uid", [.text "bea"]⟩])).2

theorem annaInTeam_maintainable :
    following.Maintainable annaInTeam (.ofList [("uid", ["bea"])]) where
  kinds kind other := by cases kind <;> cases other <;> decide +kernel
  denied := rfl
  distinct := by decide +kernel
  members kind := by cases kind <;> decide +kernel
  references kind name hvalue := by
    cases kind <;> cases hvalue <;> decide +kernel

/-- The group that held the lost reference holds the least new one, the one in the name. -/
theorem annaInTeam_followed :
    (∃ reference, Text.Least reference (["ann"] ++ ["bea"]) ∧
      following.Followed .posix ⟨name "uid" "ann", .ofList [("uid", ["ann", "anna"])]⟩ "uid"
        (["ann"] ++ ["bea"]) reference annaInTeam annInTeamAfter) ∧
      annInTeamAfter.valuesAt (name "cn" "team") "memberUid" = ["bob", "ann"] ∧
      annInTeamAfter.valuesAt (name "cn" "staff") "memberUid" = ["bob"] := by
  refine ⟨?_, by decide +kernel, by decide +kernel⟩
  have hresolve : (annaInTeam.run (following.resolve .account "uid=ann,dc=x")).1 =
      .ok (name "uid" "ann") := by decide +kernel
  have hstored : annaInTeam.entry? (name "uid" "ann") =
      some ⟨name "uid" "ann", .ofList [("uid", ["ann", "anna"])]⟩ := by decide +kernel
  have hinput : Input.partition .update [⟨"uid", [.text "bea"]⟩] =
      .ok { ordinary := .ofList [("uid", ["bea"])] } := by decide +kernel
  have hstamp : ¬ Text.same "modifyTimestamp" (following.descriptor .posix).memberAttribute =
      true := by decide +kernel
  have hsupplied : (Attributes.ofList [("uid", ["bea"])]).get? "uid" = some ["bea"] := by
    decide +kernel
  exact (Provisioner.update_follows hresolve hstored hinput annaInTeam_maintainable rfl rfl
    hsupplied hstamp).2

/-! ## References under the name of the time stamp -/

/-- The provisioner whose alias groups hold their members under the name of the time stamp, and
whose alias memberships follow changed references. -/
def stampedAlias : Provisioner :=
  { provisioner with
    configuration :=
      { provisioner.configuration with
        aliasGroupMemberAttribute := "modifyTimestamp", maintainAliasGroupMembership := true } }

/-- A directory with an entry and a group that holds its address. -/
def annInStampedTeam : Directory :=
  directory [(name "cn" "ann", [("cn", ["ann"]), ("mail", ["ann@x"])]),
    (name "cn" "team", [("cn", ["team"]), ("modifyTimestamp", ["ann@x"])])]

/-- The directory after an update has supplied another address. -/
def annInStampedTeamAfter : Directory :=
  (annInStampedTeam.run
    (stampedAlias.update .account "cn=ann,dc=x" [⟨"mail", [.text "bea@x"]⟩])).2

/-- The server writes its time stamp over the reference: the update succeeds, and the group that held
the lost reference does not hold the new one. -/
theorem stamped_references_lost :
    stampedAlias.configuration.check = .ok () ∧
      Input.partition .update [⟨"mail", [.text "bea@x"]⟩] =
        .ok { ordinary := .ofList [("mail", ["bea@x"])] } ∧
      stampedAlias.Maintainable annInStampedTeam (.ofList [("mail", ["bea@x"])]) ∧
      (stampedAlias.descriptor .mailAlias).maintained = true ∧
      (annInStampedTeam.run
        (stampedAlias.update .account "cn=ann,dc=x" [⟨"mail", [.text "bea@x"]⟩])).1 =
          .ok "cn=ann,dc=x" ∧
      ¬ ∃ reference, Text.Least reference ["bea@x"] ∧
        stampedAlias.Followed .mailAlias
          ⟨name "cn" "ann", .ofList [("cn", ["ann"]), ("mail", ["ann@x"])]⟩ "mail" ["bea@x"]
          reference annInStampedTeam annInStampedTeamAfter := by
  refine ⟨by decide +kernel, by decide +kernel,
    { kinds := fun kind other => by cases kind <;> cases other <;> decide +kernel
      denied := rfl
      distinct := by decide +kernel
      members := fun kind => by cases kind <;> decide +kernel
      references := fun kind name hvalue => by
        cases kind <;> cases hvalue <;> decide +kernel },
    rfl, by decide +kernel, ?_⟩
  rintro ⟨reference, hleast, hfollowed⟩
  have hreference : reference = "bea@x" := List.mem_singleton.1 hleast.1
  obtain ⟨group, hgroup, hholds, -⟩ := hfollowed.moved
    ⟨name "cn" "team", .ofList [("cn", ["team"]), ("modifyTimestamp", ["ann@x"])]⟩
    (by decide +kernel) ⟨⟨[.single "dc" "x"]⟩, by decide +kernel, by decide +kernel⟩
    ⟨"ann@x", by decide +kernel, by decide +kernel, by decide +kernel⟩
  have hlost : Text.holds (annInStampedTeamAfter.valuesAt (name "cn" "team") "modifyTimestamp")
      "bea@x" = false := by decide +kernel
  rw [Directory.valuesAt_of_entry? hgroup] at hlost
  rw [hreference] at hholds
  exact Bool.false_ne_true (hlost.symm.trans hholds)

end Sample

end Roster
