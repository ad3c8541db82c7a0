import Roster.Proofs.Replacing

/-!
# Updates of attributes and memberships

An update that says nothing about the name, the status, the password and the references of its entry
has nothing to wait for: it replaces attributes of the entry and then brings the memberships of each
kind in line, by a diff that is known from the start (`plainDiff`). `run_update_plain` says when it
gets that far, and what it does then.
-/

namespace Roster

open Directory (Unwritten unwritten_frame)

namespace Provisioner

variable {p : Provisioner} {dn : Dn} {e : Entry} {entries : Entries} {input : Input}
  {kind : MembershipKind}

/-- The input says nothing about the name, the status, the password and the references of the entry. -/
structure Plain (p : Provisioner) (input : Input) : Prop where
  name : input.name = none
  enable : input.enable = none
  password : input.password = none
  resetPassword : input.resetPassword = false
  references (kind : MembershipKind) (name : String) :
    (p.descriptor kind).reference = .valueOf name → input.ordinary.get? name = none

/-- The diff that ends some memberships and lets a reference join groups. -/
def regroup (existing : List GroupMembership) (reference : String) (groups : List Dn) :
    Diff GroupMembership :=
  (({} : Diff GroupMembership).removeAll existing).clearAdded.addAll
    (groups.map fun group => ⟨reference, group⟩)

/-- What becomes of the memberships of a kind: nothing if nothing is asked, and otherwise they are all
replaced. -/
def plainDiff (p : Provisioner) (dn : Dn) (e : Entry) (entries : Entries) (requests : GroupRequests)
    (kind : MembershipKind) : Diff GroupMembership :=
  if (requests.get kind).isUntouched then {}
  else regroup (p.membershipsOf kind dn e entries) (p.ownReference dn e kind)
    (requests.get kind).groups

/-- The entry has a reference of each kind that lists groups. -/
def Referable (p : Provisioner) (dn : Dn) (e : Entry) (requests : GroupRequests) : Prop :=
  ∀ kind, (requests.get kind).groups ≠ [] →
    canonicalReference? ((p.referencesOf kind dn e).getD []) = some (p.ownReference dn e kind)

/-- Replaces attributes of the entry at a name and brings its memberships of all kinds in line. -/
def regroupAll (p : Provisioner) (dn : Dn) (e : Entry) (entries : Entries) (input : Input) :
    Action Unit := do
  p.modifyValues dn .replace input.ordinary
  MembershipKind.all.forM fun kind =>
    liftM ((p.descriptor kind).applyDiff p.supply (p.plainDiff dn e entries input.requests kind))

theorem bind_canonicalReference? (references : Option (List String)) :
    references.bind canonicalReference? = canonicalReference? (references.getD []) := by
  cases references <;> rfl

theorem Plain.plannedReferences (h : p.Plain input) (dn : Dn) (hkind : kind ≠ .static) :
    p.plannedReferences dn input kind = none := by
  obtain ⟨name, hvalue⟩ := p.exists_valueOf hkind
  rw [plannedReferences_of_absent hvalue (h.references kind name hvalue), h.name]
  exact if_neg fun hrenamed => Bool.false_ne_true hrenamed.1

/-- An entry without new references is planned for in one way. -/
theorem PlansReferences.eq_plain {requests : GroupRequests} {plan : ReferencePlan}
    (h : PlansReferences p kind dn e entries false none (requests.get kind) plan) :
    plan = ⟨kind, p.plainDiff dn e entries requests kind, []⟩ ∧
      ((requests.get kind).groups ≠ [] →
        canonicalReference? ((p.referencesOf kind dn e).getD []) =
          some (p.ownReference dn e kind)) := by
  have hstale {reference : String} {stale : List GroupMembership}
      (hfollows : p.Follows kind dn e entries none reference stale) : stale = [] :=
    Classical.byContradiction fun hne => by
      obtain ⟨new, hnew, -⟩ := hfollows.known hne
      cases hnew
  cases h with
  | follow reference stale huntouched hfollows =>
    refine ⟨?_, fun hgroups => ?_⟩
    · rw [hstale hfollows, moveTo_nil, plainDiff, if_pos huntouched]
    · rw [GroupRequest.isUntouched_of_groups hgroups] at huntouched
      cases huntouched
  | replace reference stale plan htouched hfollows hlisted =>
    rw [hstale hfollows, moveTo_nil] at hlisted
    rw [plainDiff, if_neg (Bool.not_eq_true _ ▸ htouched)]
    cases hlisted with
    | nothing hnone =>
      rw [hnone]
      exact ⟨rfl, fun hsome => absurd rfl hsome⟩
    | later hsome hunknown hrenamed => cases hrenamed
    | now reference hsome hleast =>
      have hleast' : canonicalReference? ((p.referencesOf kind dn e).getD []) = some reference :=
        (bind_canonicalReference? _).symm.trans hleast
      have hown : p.ownReference dn e kind = reference := by rw [ownReference, hleast']; rfl
      rw [hown]
      exact ⟨rfl, fun _ => hleast'⟩

/-- What a plain update plans, it carries out in one way. -/
theorem PlannedInFull.carryOut_plain {plan : UpdatePlan}
    (h : PlannedInFull p dn e entries input plan) (hplain : p.Plain input) :
    p.Referable dn e input.requests ∧
      p.carryOut plan = p.regroupAll dn e entries input >>= fun _ => pure dn := by
  have hrename : renameFor? dn input.name = none := by rw [hplain.name]; rfl
  have hstatus : p.applyStatus input = (input.ordinary, input.requests) := by
    rw [applyStatus, hplain.enable]
  obtain ⟨posix, mailAlias, hreferences, hposix, halias⟩ := h.references
  have hsplit := h.split_eq
  have hfollow := h.followRename_eq
  have hstatic := h.static_eq
  have hexisting := h.existing_eq
  rw [hrename] at hsplit hfollow hposix halias
  rw [hstatus] at hsplit hstatic hposix halias
  rw [hplain.plannedReferences dn (by decide)] at hposix halias
  obtain ⟨hnaming, hordinary⟩ := Prod.mk.inj hsplit
  obtain ⟨rfl, hposixLeast⟩ := hposix.eq_plain
  obtain ⟨rfl, haliasLeast⟩ := halias.eq_plain
  have hpassword : plan.password = none := by
    rw [← Option.not_isSome_iff_eq_none, h.password, hplain.resetPassword, hplain.password]
    simp
  have hdiff : staticDiff plan dn = p.plainDiff dn e entries input.requests .static := by
    by_cases huntouched : input.requests.static.isUntouched = true
    · rw [staticDiff, hfollow, hstatic, if_pos huntouched]
      exact (if_pos huntouched).symm
    · have htouched : (plan.followRename || !plan.static.isUntouched) = true := by
        rw [hstatic, Bool.eq_false_iff.2 huntouched, Bool.not_false, Bool.or_true]
      rw [staticDiff, hfollow, hstatic, hexisting htouched, if_neg huntouched]
      exact (if_neg huntouched).symm
  refine ⟨fun kind hgroups => ?_, ?_⟩
  · cases kind with
    | static => rfl
    | posix => exact hposixLeast hgroups
    | mailAlias => exact haliasLeast hgroups
  · unfold carryOut settle regroupAll
    rw [h.dn_eq, h.rename_eq, hrename, hordinary, hnaming, hreferences, hpassword]
    simp only [move, sendItems, writePassword, hdiff, MembershipKind.all, List.forM_eq_forM,
      List.forM_cons, List.forM_nil, applyReferences, List.isEmpty_nil, if_true, bind_assoc, pure_bind]

/-- A plain update is not refused if the entry has the references that it needs. -/
theorem Plain.not_refusable (h : p.Plain input) (hreferable : p.Referable dn e input.requests) :
    ¬ p.Refusable dn e input := by
  rintro (hreset | hgiven | ⟨kind, hkind, hnone | ⟨hgroups, hleast⟩⟩)
  · rw [h.resetPassword] at hreset
    cases hreset
  · rw [h.password] at hgiven
    cases hgiven
  · rw [h.plannedReferences dn hkind] at hnone
    cases hnone
  · rw [applyStatus, h.enable] at hgroups
    rw [h.plannedReferences dn hkind] at hleast
    have hnone := (bind_canonicalReference? (p.referencesOf kind dn e)).symm.trans hleast
    rw [hreferable kind hgroups] at hnone
    cases hnone

section Runs

variable {entryClass : EntryClass} {uid : String} {attributes : List InputAttribute}
  {dir after : Directory} (hplain : p.Plain input)
  (hresolve : (dir.run (p.resolve entryClass uid)).1 = .ok dn) (hstored : dir.entry? dn = some e)
  (hinput : Input.partition .update attributes = .ok input)

include hplain hresolve hstored hinput

/-- **A plain update** of an entry with the references that it needs does its work in one way. -/
theorem run_update_plain (hreferable : p.Referable dn e input.requests) :
    ∃ planned, dir.Unwritten planned ∧ dir.run (p.update entryClass uid attributes) =
      planned.run (p.regroupAll dn e dir.entries input >>= fun _ => p.identify entryClass dn) := by
  have hentry : dir.entries.Reads dn e fun _ => False := .stored hstored
  have hfail (hrefusable : p.Refusable dn e input) : ∀ err, p.Unplannable dn input err → False :=
    absurd hrefusable (hplain.not_refusable hreferable)
  rcases update_plans hresolve hentry hinput hfail with
    ⟨_, _, -, hfalse, -⟩ | ⟨plan, planned, hplan, hquiet, hrun⟩
  · exact hfalse.elim
  · rw [(hplan.carryOut_plain hplain).2, bind_assoc] at hrun
    exact ⟨planned, hquiet, hrun⟩

/-- A plain update that succeeds has found the references that it needs and done its work. -/
theorem stages_of_update {uid' : String}
    (hrun : dir.run (p.update entryClass uid attributes) = (.ok uid', after)) :
    p.Referable dn e input.requests ∧ ∃ planned settled, dir.Unwritten planned ∧
      planned.run (p.regroupAll dn e dir.entries input) = (.ok (), settled) ∧
        settled.run (p.identify entryClass dn) = (.ok uid', after) := by
  obtain ⟨plan, -, -, -, -, -, hplan, -⟩ :=
    update_stages_inFull hresolve (.inl hstored) hinput hrun
  have hreferable := (hplan.carryOut_plain hplain).1
  obtain ⟨planned, hquiet, hplanned⟩ := run_update_plain hplain hresolve hstored hinput hreferable
  obtain ⟨_, settled, hregroup, hidentify⟩ := Directory.run_bind_ok.1 (hplanned.symm.trans hrun)
  exact ⟨hreferable, planned, settled, hquiet, hregroup, hidentify⟩

end Runs

end Provisioner

end Roster
