import Roster.Proofs.Replacing

/-!
# Explicit lists of groups

An update that lists groups of a kind ends the memberships of the entry below the base contexts and
puts its least reference into the listed groups. `update_reconciles` says that all of this is
carried out, for every kind that is listed, if what the update writes is kept apart: `Regrouped`
follows the diffs of the kinds through the requests of the update. It is not kept apart if groups
hold their members under the name of the time stamp that the server writes (`stamped_members_lost`).
-/

namespace Roster

open Directory (Touched HoldsAt)

namespace Provisioner

variable {p : Provisioner} {dn : Dn} {e : Entry} {dir : Directory} {kind : MembershipKind}
  {input : Input}

/-! ## Sending the plan -/

/-- The member attributes of the kinds are different attributes, and none of them is the password or
the time stamp that the server writes. -/
structure Separates (p : Provisioner) : Prop where
  kinds (kind other : MembershipKind) : kind ≠ other →
    ¬ Text.same (p.descriptor kind).memberAttribute (p.descriptor other).memberAttribute = true
  password (kind : MembershipKind) :
    ¬ Text.same p.configuration.passwordAttribute (p.descriptor kind).memberAttribute = true
  timeStamp (kind : MembershipKind) :
    ¬ Text.same "modifyTimestamp" (p.descriptor kind).memberAttribute = true

/-- Where an operation stands that has carried out the diffs of some kinds since a moment, and has
left the memberships of the other kinds alone. -/
structure Regrouped (p : Provisioner) (start : Directory)
    (done : List (MembershipKind × Diff GroupMembership)) (dir : Directory) : Prop where
  denied : dir.denied = []
  names (x : Dn) : dir.storedName x = start.storedName x
  distinct (kind : MembershipKind) (x : Dn) :
    Text.Distinct (dir.valuesAt x (p.descriptor kind).memberAttribute)
  carried (kind : MembershipKind) (diff : Diff GroupMembership) : (kind, diff) ∈ done →
    ∀ x value, dir.HoldsAt (p.descriptor kind).memberAttribute x value ↔
      diff.Leaves (p.descriptor kind).memberAttribute start x value
  rest (kind : MembershipKind) : (∀ step ∈ done, step.1 ≠ kind) → ∀ x,
    dir.valuesAt x (p.descriptor kind).memberAttribute =
      start.valuesAt x (p.descriptor kind).memberAttribute

variable {start after : Directory} {done : List (MembershipKind × Diff GroupMembership)}

theorem Regrouped.stored_iff (h : p.Regrouped start done dir) {x : Dn} :
    dir.Stored x ↔ start.Stored x :=
  Directory.stored_congr (h.names x)

/-- What does not write a member attribute keeps the memberships. -/
theorem Regrouped.touched {sort : String → Prop} (h : p.Regrouped start done dir)
    (hp : p.Separates) (htouched : Touched sort dir after)
    (hsort : ∀ kind, ¬ sort (p.descriptor kind).memberAttribute) :
    p.Regrouped start done after := by
  have hvalues (kind : MembershipKind) (x : Dn) :
      after.valuesAt x (p.descriptor kind).memberAttribute =
        dir.valuesAt x (p.descriptor kind).memberAttribute :=
    htouched.others x _ (hsort kind) (hp.timeStamp kind)
  exact
    { denied := htouched.denied.trans h.denied
      names := fun x => (htouched.names x).trans (h.names x)
      distinct := fun kind x => hvalues kind x ▸ h.distinct kind x
      carried := fun kind diff hmem x value => by
        rw [HoldsAt, hvalues]
        exact h.carried kind diff hmem x value
      rest := fun kind hkind x => (hvalues kind x).trans (h.rest kind hkind x) }

/-- The diff of one more kind is carried out. -/
theorem Regrouped.run_applyDiff (h : p.Regrouped start done dir) (hp : p.Separates)
    (kind : MembershipKind) (hkind : ∀ step ∈ done, step.1 ≠ kind) {diff : Diff GroupMembership}
    (hdiff : diff.Admissible (p.descriptor kind).memberAttribute start) :
    ∃ after, dir.run ((p.descriptor kind).applyDiff p.supply diff) = (.ok (), after) ∧
      p.Regrouped start ((kind, diff) :: done) after := by
  have hsame (x : Dn) (value : String) :
      dir.HoldsAt (p.descriptor kind).memberAttribute x value ↔
        start.HoldsAt (p.descriptor kind).memberAttribute x value := by
    rw [HoldsAt, HoldsAt, h.rest kind hkind x]
  have hadmissible : diff.Admissible (p.descriptor kind).memberAttribute dir :=
    { held := fun m hm => (hsame _ _).2 (hdiff.held m hm)
      once := hdiff.once
      apart := hdiff.apart
      stored := fun m hm => h.stored_iff.2 (hdiff.stored m hm) }
  obtain ⟨after, hrun, hrewritten⟩ := KindDescriptor.run_applyDiff p.supply (hp.timeStamp kind)
    h.denied (h.distinct kind) hadmissible
  have hothers (other : MembershipKind) (hne : kind ≠ other) (x : Dn) :
      after.valuesAt x (p.descriptor other).memberAttribute =
        dir.valuesAt x (p.descriptor other).memberAttribute :=
    hrewritten.touched.others x _ (hp.kinds kind other hne) (hp.timeStamp other)
  refine ⟨after, hrun,
    { denied := hrewritten.touched.denied.trans h.denied
      names := fun x => (hrewritten.touched.names x).trans (h.names x)
      distinct := fun other x => ?_
      carried := fun other diff' hmem x value => ?_
      rest := fun other hother x => ?_ }⟩
  · by_cases hne : kind = other
    · subst hne
      exact hrewritten.distinct x
    · rw [hothers other hne x]
      exact h.distinct other x
  · rcases List.mem_cons.1 hmem with heq | hmem
    · cases heq
      rw [hrewritten.holds, Diff.Leaves, hsame, Diff.Leaves]
    · rw [HoldsAt, hothers other (hkind _ hmem).symm x]
      exact h.carried other diff' hmem x value
  · rw [hothers other (hother _ List.mem_cons_self) x]
    exact h.rest other (fun step hstep => hother step (List.mem_cons_of_mem _ hstep)) x

/-- The ordinary attributes of an update are replaced. -/
theorem Regrouped.run_modifyValues (h : p.Regrouped start done dir) (hp : p.Separates)
    (hstored : start.Stored dn) {attrs : Attributes}
    (hattrs : ∀ kind, attrs.get? (p.descriptor kind).memberAttribute = none) :
    ∃ after, dir.run (p.modifyValues dn .replace attrs) = (.ok (), after) ∧
      p.Regrouped start done after := by
  obtain ⟨after, hrun, htouched⟩ :=
    run_modifyValues_touched h.denied (h.stored_iff.2 hstored) attrs
  exact ⟨after, hrun, h.touched hp htouched fun kind => not_not.2 (hattrs kind)⟩

/-- The password of an update is replaced. -/
theorem Regrouped.run_writePassword (h : p.Regrouped start done dir) (hp : p.Separates)
    (hstored : start.Stored dn) (stored : Option String) :
    ∃ after, dir.run (p.writePassword dn .replace stored) = (.ok (), after) ∧
      p.Regrouped start done after := by
  unfold writePassword
  split
  · exact ⟨dir, rfl, h⟩
  · next value =>
    have hitems : ∀ item ∈
        [(⟨.replace, p.configuration.passwordAttribute, [value]⟩ : Modification)],
        item.op = .replace := by simp
    obtain ⟨after, hrun, htouched⟩ :=
      Directory.run_modify_replace p.supply h.denied (h.stored_iff.2 hstored) hitems
    refine ⟨after, Directory.run_lift_of_ok hrun, h.touched hp htouched fun kind => ?_⟩
    rintro ⟨item, hitem, hsame⟩
    rw [List.mem_singleton.1 hitem] at hsame
    exact hp.password kind hsame

/-- What an update with explicit lists of groups relies on: the kinds have member attributes of
their own, the directory can be written and has no value in two spellings, the input neither renames
the entry nor says whether it is enabled, writes no member attribute, gives up no references, and
lists groups that exist. -/
structure Reconcilable (p : Provisioner) (dir : Directory) (input : Input) : Prop where
  kinds (kind other : MembershipKind) : kind ≠ other →
    ¬ Text.same (p.descriptor kind).memberAttribute (p.descriptor other).memberAttribute = true
  password (kind : MembershipKind) :
    ¬ Text.same p.configuration.passwordAttribute (p.descriptor kind).memberAttribute = true
  denied : dir.denied = []
  distinct (group : Entry) : group ∈ dir.entries.list →
    ∀ pair ∈ group.attributes.pairs, Text.Distinct pair.2
  name : input.name = none
  enable : input.enable = none
  ordinary (kind : MembershipKind) :
    input.ordinary.get? (p.descriptor kind).memberAttribute = none
  references (kind : MembershipKind) (name : String) :
    (p.descriptor kind).reference = .valueOf name → input.ordinary.get? name ≠ some []
  stored (kind : MembershipKind) : ∀ group ∈ (input.requests.get kind).groups, dir.Stored group

/-- At the beginning nothing is carried out. -/
theorem Reconcilable.regrouped (h : p.Reconcilable dir input) (hp : p.Separates)
    {planned : Directory} (hquiet : dir.Unwritten planned) : p.Regrouped dir [] planned := by
  have hstart : p.Regrouped dir [] dir :=
    { denied := h.denied
      names := fun _ => rfl
      distinct := fun kind x => by
        unfold Directory.valuesAt
        split
        · next group hgroup =>
          exact Text.distinct_values (h.distinct group (dir.entries.get?_eq_some_iff.1 hgroup).1) _
        · exact List.nodup_nil
      carried := fun _ _ hmem => by cases hmem
      rest := fun _ _ _ => rfl }
  exact hstart.touched hp (hquiet.touched fun _ => False) fun _ hfalse => hfalse

/-- **A planned update with explicit lists is carried out** to its end. -/
theorem Reconcilable.run_carryOut (h : p.Reconcilable dir input) (hp : p.Separates)
    {plan : UpdatePlan} {planned : Directory} (hstored : dir.entry? dn = some e)
    (hplan : Planned p dn e dir.entries input plan) (hquiet : dir.Unwritten planned) :
    ∃ settled done, planned.run (p.carryOut plan) = (.ok dn, settled) ∧
      p.Regrouped dir done settled ∧
      ∀ kind, ∃ diff, (kind, diff) ∈ done ∧ p.Serves kind dn e dir input diff := by
  have hrename : renameFor? dn input.name = none := by rw [h.name]; rfl
  have hstatus : p.applyStatus input = (input.ordinary, input.requests) := by
    rw [applyStatus, h.enable]
  have hdistinct := Text.distinct_values (h.distinct e (dir.entries.get?_eq_some_iff.1 hstored).1)
  have hsome : dir.Stored dn := Directory.stored_iff.2 ⟨e, hstored⟩
  have hsplit := hplan.split_eq
  have hstatic := hplan.static_eq
  have hfollow := hplan.followRename_eq
  have hexisting := hplan.existing_eq
  obtain ⟨posix, mailAlias, hreferences, hposix, halias⟩ := hplan.references
  rw [hrename, hstatus] at hsplit hposix halias
  rw [hrename] at hfollow
  rw [hstatus] at hstatic
  obtain ⟨hnaming, hordinary⟩ := Prod.mk.inj hsplit
  have hserved := serves_static hfollow hstatic
    (fun htouched => hexisting (by rw [htouched, Bool.not_false, Bool.or_true]))
    (h.stored .static)
  obtain ⟨posixDiff, rfl, hposixServed⟩ :=
    serves_references h.name rfl (h.stored .posix) hposix
  obtain ⟨aliasDiff, rfl, haliasServed⟩ :=
    serves_references h.name rfl (h.stored .mailAlias) halias
  obtain ⟨sent, hsend, hsent⟩ := (h.regrouped hp hquiet).run_modifyValues hp hsome h.ordinary
  obtain ⟨static, hstaticRun, hstaticDone⟩ := hsent.run_applyDiff hp .static
    (fun _ hmem => by cases hmem) (hserved.feasible.admissible hdistinct)
  obtain ⟨posix, hposixRun, hposixDone⟩ := hstaticDone.run_applyDiff hp .posix
    (by simp) (hposixServed.feasible.admissible hdistinct)
  obtain ⟨mailAlias, haliasRun, haliasDone⟩ :=
    hposixDone.run_applyDiff hp .mailAlias
      (by simp) (haliasServed.feasible.admissible hdistinct)
  obtain ⟨settled, hpassword, hsettled⟩ :=
    haliasDone.run_writePassword hp hsome plan.password
  refine ⟨settled, _, ?_, hsettled, fun kind => ?_⟩
  · unfold carryOut
    rw [hplan.dn_eq, hplan.rename_eq, hrename, hordinary]
    refine Directory.run_bind_ok.2 ⟨(), sent, hsend, ?_⟩
    refine Directory.run_bind_ok.2 ⟨dn, sent, rfl, ?_⟩
    refine Directory.run_bind_ok.2 ⟨(), settled, ?_, rfl⟩
    unfold settle
    rw [hnaming, hreferences]
    refine Directory.run_bind_ok.2 ⟨(), sent, rfl, ?_⟩
    refine Directory.run_bind_ok.2 ⟨(), static, Directory.run_lift_of_ok hstaticRun, ?_⟩
    refine Directory.run_bind_ok.2 ⟨(), mailAlias, ?_, hpassword⟩
    refine Directory.run_bind_ok.2 ⟨(), posix, run_applyReferences hposixRun, ?_⟩
    exact Directory.run_bind_ok.2 ⟨(), mailAlias, run_applyReferences haliasRun, rfl⟩
  · cases kind with
    | static => exact ⟨_, by simp, hserved⟩
    | posix => exact ⟨_, by simp, hposixServed⟩
    | mailAlias => exact ⟨_, by simp, haliasServed⟩

/-! ## The outcome -/

/-- The groups of a kind as an update with an explicit list leaves them. -/
structure Reconciled (p : Provisioner) (kind : MembershipKind) (dn : Dn) (e : Entry)
    (input : Input) (dir after : Directory) : Prop where
  /-- Listed groups hold the least reference and, below the base contexts, no other reference that
  the entry had. -/
  listed (name : Dn) : name ∈ (input.requests.get kind).groups →
    ∃ group reference, after.entry? name = some group ∧
      Text.Least reference ((p.descriptor kind).suppliedReferences dn e input.ordinary) ∧
      (p.descriptor kind).Holds group reference ∧
      (p.InScope group.dn → ∀ o ∈ (p.descriptor kind).ownReferences dn e,
        ¬ Text.same o reference = true → ¬ (p.descriptor kind).Holds group o)
  /-- Other groups below the base contexts hold no reference that the entry had. -/
  others (group : Entry) : group ∈ after.entries.list → p.InScope group.dn →
    group.dn.isIn (input.requests.get kind).groups = false →
      ∀ o ∈ (p.descriptor kind).ownReferences dn e, ¬ (p.descriptor kind).Holds group o
  /-- Whatever else a group holds, it held before. -/
  kept (group : Entry) : group ∈ after.entries.list →
    ∃ old ∈ dir.entries.list, old.dn = group.dn ∧ ∀ value,
      (p.InScope group.dn → ∀ o ∈ (p.descriptor kind).ownReferences dn e,
        ¬ Text.same o value = true) →
      (group.dn.isIn (input.requests.get kind).groups = true → ∀ reference,
        Text.Least reference ((p.descriptor kind).suppliedReferences dn e input.ordinary) →
          ¬ Text.same reference value = true) →
      ((p.descriptor kind).Holds group value ↔ (p.descriptor kind).Holds old value)

theorem Regrouped.reconciled {diff : Diff GroupMembership} (h : p.Regrouped dir done after)
    (hdone : (kind, diff) ∈ done) (hserves : p.Serves kind dn e dir input diff)
    (hlisted : (input.requests.get kind).isUntouched = false)
    (hstored : ∀ group ∈ (input.requests.get kind).groups, dir.Stored group) :
    p.Reconciled kind dn e input dir after := by
  obtain ⟨reference, hleast, hreplaces⟩ := hserves.replaces hlisted
  have hlaw (x : Dn) (value : String) := (h.carried kind diff hdone x value).trans
    (hreplaces.leaves_iff x value)
  have hself (group : Entry) (hgroup : group ∈ after.entries.list) :
      after.entry? group.dn = some group := after.entries.get?_eq_some_iff.2 ⟨hgroup, rfl⟩
  have hold {x : Dn} {group : Entry} (hgroup : after.entry? x = some group) :
      ∃ old, dir.entry? x = some old ∧ old.dn = group.dn := by
    have hname : after.storedName x = some group.dn := congrArg (Option.map Entry.dn) hgroup
    rw [h.names] at hname
    exact Option.map_eq_some_iff.1 hname
  refine ⟨fun name hname => ?_, fun group hgroup hscope hother o ho hholds => ?_,
    fun group hgroup => ?_⟩
  · obtain ⟨group, hgroup⟩ := Directory.stored_iff.1 (h.stored_iff.2 (hstored name hname))
    have hin : name.isIn (input.requests.get kind).groups = true :=
      List.any_eq_true.2 ⟨name, hname, Dn.same_iff.2 rfl⟩
    refine ⟨group, reference, hgroup, hleast (List.ne_nil_of_mem hname), ?_, ?_⟩
    · exact (Directory.holdsAt_iff hgroup _ _).1 ((hlaw name _).2 (.inr ⟨hin, Text.same_refl _⟩))
    · intro hscope o ho hne hholds
      have hheld := (Directory.holdsAt_iff hgroup _ _).2 hholds
      rcases (hlaw name o).1 hheld with ⟨-, hkept⟩ | ⟨-, hsame⟩
      · obtain ⟨old, hentry, hdn⟩ := hold hgroup
        exact hkept ⟨⟨old, hentry, hdn ▸ hscope⟩, o, ho, Text.same_refl o⟩
      · exact hne (Text.same_symm hsame)
  · rcases (hlaw group.dn o).1 ((Directory.holdsAt_iff (hself group hgroup) _ _).2 hholds) with
      ⟨-, hkept⟩ | ⟨hin, -⟩
    · obtain ⟨old, hentry, hdn⟩ := hold (hself group hgroup)
      exact hkept ⟨⟨old, hentry, hdn ▸ hscope⟩, o, ho, Text.same_refl o⟩
    · rw [hother] at hin
      cases hin
  · obtain ⟨old, hentry, hdn⟩ := hold (hself group hgroup)
    refine ⟨old, (dir.entries.get?_eq_some_iff.1 hentry).1, hdn, fun value hown hnew => ?_⟩
    have hvalue := hlaw group.dn value
    rw [Directory.holdsAt_iff (hself group hgroup), Directory.holdsAt_iff hentry] at hvalue
    refine hvalue.trans ⟨?_, fun hheld => .inl ⟨hheld, ?_⟩⟩
    · rintro (⟨hheld, -⟩ | ⟨hin, hsame⟩)
      · exact hheld
      · obtain ⟨name, hname, -⟩ := List.any_eq_true.1 hin
        exact absurd hsame (hnew hin reference (hleast (List.ne_nil_of_mem hname)))
    · rintro ⟨⟨old', hentry', hscope⟩, o, ho, hsame⟩
      rw [hentry] at hentry'
      cases hentry'
      exact hown (hdn ▸ hscope) o ho hsame

/-- **An explicit list of groups is reconciled** if no kind keeps its members under the name of the
time stamp: an update that is not refused for its input sends everything that it plans without
failure, and leaves the groups of each kind that it lists as they should be. -/
theorem update_reconciles {entryClass : EntryClass} {uid : String}
    {attributes : List InputAttribute}
    (hresolve : (dir.run (p.resolve entryClass uid)).1 = .ok dn)
    (hstored : dir.entry? dn = some e) (hinput : Input.partition .update attributes = .ok input)
    (h : p.Reconcilable dir input)
    (hstamp : ∀ kind,
      ¬ Text.same "modifyTimestamp" (p.descriptor kind).memberAttribute = true)
    (hvalid : ∀ err, (dir.run (p.update entryClass uid attributes)).1 = .error err →
      err.isValidation = false) :
    (∃ plan planned settled, Planned p dn e dir.entries input plan ∧ dir.Unwritten planned ∧
      planned.run (p.carryOut plan) = (.ok dn, settled) ∧
      dir.run (p.update entryClass uid attributes) = settled.run (p.identify entryClass dn)) ∧
    ∀ kind, (input.requests.get kind).isUntouched = false →
      p.Reconciled kind dn e input dir (dir.run (p.update entryClass uid attributes)).2 := by
  have hp : p.Separates := ⟨h.kinds, h.password, hstamp⟩
  rcases update_planned hresolve hstored hinput with
    ⟨err, refused, hrefused, hunplannable, -⟩ | ⟨plan, planned, hplan, hquiet, hrun⟩
  · exfalso
    rcases hunplannable with hvalidation | ⟨kind, hkind, hnone⟩
    · have hnot := hvalid err (by rw [hrefused])
      rw [hvalidation] at hnot
      cases hnot
    · obtain ⟨name, hvalue⟩ : ∃ name, (p.descriptor kind).reference = .valueOf name := by
        cases kind with
        | static => exact absurd rfl hkind
        | posix => exact ⟨_, rfl⟩
        | mailAlias => exact ⟨_, rfl⟩
      exact h.references kind name hvalue ((plannedReferences_eq_nil hvalue).1 hnone).1
  · obtain ⟨settled, done, hcarried, hregrouped, hserved⟩ := h.run_carryOut hp hstored hplan hquiet
    rw [Directory.run_bind, hcarried] at hrun
    refine ⟨⟨plan, planned, settled, hplan, hquiet, hcarried, hrun⟩, fun kind hlisted => ?_⟩
    obtain ⟨diff, hdone, hserves⟩ := hserved kind
    have hend := (p.keeps_unwritten_identify entryClass dn settled).touched fun _ => False
    rw [hrun]
    exact (hregrouped.touched hp hend fun _ hfalse => hfalse).reconciled hdone hserves
      hlisted (h.stored kind)

end Provisioner

namespace Sample

/-- A directory with an entry and two groups that hold references of it. -/
def annInTwoGroups : Directory :=
  directory [(name "uid" "ann", [("uid", ["ann", "anna"])]),
    (name "cn" "team", [("memberUid", ["ANNA"])]),
    (name "cn" "staff", [("memberUid", ["ann", "bob"])])]

/-- The input that lists one group of a kind. -/
def listing (kind : MembershipKind) : Input :=
  { requests := GroupRequests.set {} kind (.replace [name "cn" "team"]) }

theorem annInTwoGroups_reconcilable :
    provisioner.Reconcilable annInTwoGroups (listing .posix) where
  kinds kind other := by cases kind <;> cases other <;> decide +kernel
  password kind := by cases kind <;> decide +kernel
  denied := rfl
  distinct := by decide +kernel
  name := rfl
  enable := rfl
  ordinary _ := rfl
  references _ _ _ := nofun
  stored kind := by cases kind <;> decide +kernel

/-- The directory after an update of the entry has listed the one group. -/
def annInTeamOnly : Directory :=
  (annInTwoGroups.run (provisioner.update .account "uid=ann,dc=x"
    [⟨"posixGroups", [.text "cn=team,dc=x"]⟩])).2

/-- The listed group holds the least reference in place of the other, the other group holds none. -/
theorem annInTwoGroups_reconciled :
    provisioner.Reconciled .posix (name "uid" "ann")
        ⟨name "uid" "ann", .ofList [("uid", ["ann", "anna"])]⟩ (listing .posix) annInTwoGroups
        annInTeamOnly ∧
      annInTeamOnly.valuesAt (name "cn" "team") "memberUid" = ["ann"] ∧
      annInTeamOnly.valuesAt (name "cn" "staff") "memberUid" = ["bob"] := by
  refine ⟨?_, by decide +kernel, by decide +kernel⟩
  have hrun : (annInTwoGroups.run (provisioner.update .account "uid=ann,dc=x"
      [⟨"posixGroups", [.text "cn=team,dc=x"]⟩])).1 = .ok "uid=ann,dc=x" := by decide +kernel
  have hlisted : (listing .posix).requests.posix.isUntouched = false := rfl
  refine (Provisioner.update_reconciles (by decide +kernel) (by decide +kernel) (by decide +kernel)
    annInTwoGroups_reconcilable (fun kind => ?_) fun err herr => ?_).2 .posix hlisted
  · cases kind <;> decide +kernel
  · rw [hrun] at herr
    cases herr

/-! ## Members under the name of the time stamp -/

/-- The provisioner whose groups hold their members under the name of the time stamp. -/
def stamped : Provisioner :=
  { provisioner with
    configuration := { provisioner.configuration with groupMemberAttribute := "modifyTimestamp" } }

/-- A directory with an entry and a group without members. -/
def annBesideTeam : Directory :=
  directory [(name "cn" "ann", [("cn", ["ann"])]), (name "cn" "team", [("cn", ["team"])])]

/-- The directory after an update of the entry has listed the group. -/
def annBesideStampedTeam : Directory :=
  (annBesideTeam.run (stamped.update .account "cn=ann,dc=x"
    [⟨"ldapGroups", [.text "cn=team,dc=x"]⟩])).2

theorem annBesideTeam_reconcilable : stamped.Reconcilable annBesideTeam (listing .static) where
  kinds kind other := by cases kind <;> cases other <;> decide +kernel
  password kind := by cases kind <;> decide +kernel
  denied := rfl
  distinct := by decide +kernel
  name := rfl
  enable := rfl
  ordinary _ := rfl
  references _ _ _ := nofun
  stored kind := by cases kind <;> decide +kernel

/-- The server writes its time stamp over the member: the update succeeds, and the listed group does
not hold the entry. -/
theorem stamped_members_lost :
    stamped.configuration.check = .ok () ∧
      Input.partition .update [⟨"ldapGroups", [.text "cn=team,dc=x"]⟩] = .ok (listing .static) ∧
      stamped.Reconcilable annBesideTeam (listing .static) ∧
      (annBesideTeam.run (stamped.update .account "cn=ann,dc=x"
        [⟨"ldapGroups", [.text "cn=team,dc=x"]⟩])).1 = .ok "cn=ann,dc=x" ∧
      ¬ stamped.Reconciled .static (name "cn" "ann") ⟨name "cn" "ann", .ofList [("cn", ["ann"])]⟩
        (listing .static) annBesideTeam annBesideStampedTeam := by
  refine ⟨by decide +kernel, by decide +kernel, annBesideTeam_reconcilable, by decide +kernel,
    fun h => ?_⟩
  obtain ⟨group, reference, hgroup, hleast, hholds, -⟩ :=
    h.listed (name "cn" "team") (List.mem_singleton_self _)
  have hreference : reference = "cn=ann,dc=x" :=
    (List.mem_singleton.1 hleast.1).trans (by decide +kernel)
  have hlost : Text.holds (annBesideStampedTeam.valuesAt (name "cn" "team") "modifyTimestamp")
      "cn=ann,dc=x" = false := by decide +kernel
  rw [Directory.valuesAt_of_entry? hgroup] at hlost
  rw [hreference] at hholds
  exact Bool.false_ne_true (hlost.symm.trans hholds)

end Sample

end Roster
