import Mathlib.Data.Finset.Lattice.Lemmas
import Roster.Proofs.RequestOrder
import Roster.Proofs.SettledEntries
import Roster.Proofs.ValueSets

/-!
# What becomes of a diff

A diff of memberships is carried out by requests for single values, removals first
(`applyDiff_eq_forM`). `applyDiff_outcomes` tells what is left behind. If all requests are done, each
group holds what it held, less the removals and with the additions that are about it, as sets and
without regard to case; the other values keep their order, and nothing else changes but time stamps
(`KindDescriptor.Realised`). If a request fails, those before it have been carried out and those after
it have not even been sent.

Sets of values are followed through the loops of single removals and additions by
`foldedSet_foldl_dropFirst` and `foldedSet_foldl_addNew`.
-/

namespace Roster

/-! ## Values one after the other -/

namespace Text

theorem foldedSet_cons (value : String) (values : List String) :
    foldedSet (value :: values) = insert (fold value) (foldedSet values) := by
  rw [foldedSet, List.map_cons, List.toFinset_cons, foldedSet]

theorem foldedSet_foldl_dropFirst {values removed : List String} (h : Distinct values) :
    foldedSet (removed.foldl dropFirst values) = foldedSet values \ foldedSet removed := by
  induction removed generalizing values with
  | nil => exact (Finset.sdiff_empty (s := foldedSet values)).symm
  | cons r rs ih =>
    have hdropped : Distinct (dropFirst values r) := h.eraseP r
    rw [List.foldl_cons, ih hdropped, dropFirst, h.foldedSet_eraseP, foldedSet_cons,
      Finset.sdiff_insert, Finset.erase_sdiff_comm]

theorem foldedSet_addNew (values : List String) (value : String) :
    foldedSet (addNew values value) = insert (fold value) (foldedSet values) := by
  unfold addNew
  split
  · next hheld => exact (Finset.insert_eq_of_mem (mem_foldedSet.2 hheld)).symm
  · exact foldedSet_append_singleton values value

theorem foldedSet_foldl_addNew (values added : List String) :
    foldedSet (added.foldl addNew values) = foldedSet values ∪ foldedSet added := by
  induction added generalizing values with
  | nil => exact (Finset.union_empty (foldedSet values)).symm
  | cons a rest ih =>
    rw [List.foldl_cons, ih, foldedSet_addNew, foldedSet_cons, Finset.insert_union,
      Finset.union_insert]

/-- What no step of a loop changes about some values, the loop does not change. -/
theorem filter_foldl {p : String → Bool} {step : List String → String → List String}
    {changes : List String}
    (hstep : ∀ c ∈ changes, ∀ values : List String, (step values c).filter p = values.filter p)
    (values : List String) : (changes.foldl step values).filter p = values.filter p := by
  induction changes generalizing values with
  | nil => rfl
  | cons c rest ih =>
    rw [List.forall_mem_cons] at hstep
    rw [List.foldl_cons, ih hstep.2, hstep.1]

end Text

/-! ## Requests that are carried out -/

namespace Errand

variable {supply : Supply} {dir after : Directory}

/-- Makes the request of an errand, for which a value that is there already may be no failure. -/
def carryOut (supply : Supply) (errand : Errand) : Directory.Action Unit :=
  if errand.lenient then
    tryCatch (errand.mutation.send supply) fun e => if e.isValueExists then pure () else throw e
  else errand.mutation.send supply

/-- A failing errand leaves no trace but its request. -/
theorem run_carryOut_error {errand : Errand} {e : DirectoryError}
    (h : dir.run (errand.carryOut supply) = (.error e, after)) :
    after = dir.record errand.request := by
  have hsend : dir.run (errand.mutation.send supply) = (.error e, after) := by
    unfold carryOut at h
    split at h
    · rw [Directory.run_tryCatch] at h
      split at h
      · cases h
      · next err mid hsend =>
        split at h
        · cases h
        · cases h
          exact hsend
    · exact h
  unfold request
  cases hmutation : errand.mutation with
  | add dn attrs =>
    rw [hmutation] at hsend
    exact Directory.run_perform_error hsend
  | modify dn items =>
    rw [hmutation] at hsend
    exact Directory.run_perform_error hsend
  | rename dn rdn superior =>
    rw [hmutation] at hsend
    rcases Directory.run_bind_error.1 hsend with hrename | ⟨_, mid, _, hreturn⟩
    · exact Directory.run_perform_error hrename
    · cases hreturn

theorem journal_carryOut (errand : Errand) (dir : Directory) :
    (dir.run (errand.carryOut supply)).2.journal = dir.journal ++ [errand.request] := by
  have hsent := errand.mutation.journal_send supply dir
  unfold carryOut
  split
  · rw [Directory.run_tryCatch]
    split
    · next hsend =>
      rw [hsend] at hsent
      exact hsent
    · next err mid hsend =>
      rw [hsend] at hsent
      split <;> exact hsent
  · exact hsent

/-- Errands that are done one after the other are on record in their order. -/
theorem journal_forM_carryOut {errands : List Errand}
    (h : dir.run (errands.forM (carryOut supply)) = (.ok (), after)) :
    after.journal = dir.journal ++ errands.map request := by
  induction errands generalizing dir with
  | nil =>
    cases h
    exact (List.append_nil _).symm
  | cons errand errands ih =>
    obtain ⟨_, mid, hfirst, hrest⟩ := Directory.run_bind_ok.1 h
    have hmid : (dir.run (errand.carryOut supply)).2.journal = dir.journal ++ [errand.request] :=
      errand.journal_carryOut dir
    rw [hfirst] at hmid
    rw [ih hrest, hmid, List.append_assoc, List.map_cons, List.singleton_append]

end Errand

namespace Provisioner

variable {p : Provisioner} {kind : MembershipKind} {diff : Diff GroupMembership}
  {dir after : Directory}

/-- A diff is carried out request by request. -/
theorem applyDiff_eq_forM (p : Provisioner) (kind : MembershipKind)
    (diff : Diff GroupMembership) :
    (p.descriptor kind).applyDiff p.supply diff =
      (p.turn kind diff.effectiveRemoved diff.effectiveAdded).forM (Errand.carryOut p.supply) := by
  rw [turn, List.forM_eq_forM, List.forM_append, List.forM_map, List.forM_map]
  rfl

end Provisioner

/-! ## Outcomes -/

/-- The references that a diff removes from the group at a name or adds to it. -/
def Diff.namedIn (diff : Diff GroupMembership) (dn : Dn) : List String :=
  referencesIn diff.effectiveRemoved dn ++ referencesIn diff.effectiveAdded dn

/-- What a diff that went through has made of a stored entry. -/
structure KindDescriptor.Realised (d : KindDescriptor) (diff : Diff GroupMembership) (e e' : Entry) :
    Prop where
  name : e'.dn = e.dn
  /-- The removals are gone and the additions are there, unless the server writes its time stamp over
  both. -/
  members : ¬ Text.same "modifyTimestamp" d.memberAttribute = true →
    Text.foldedSet (e'.attributes.values d.memberAttribute) =
      Text.foldedSet (e.attributes.values d.memberAttribute) \
        Text.foldedSet (referencesIn diff.effectiveRemoved e.dn) ∪
        Text.foldedSet (referencesIn diff.effectiveAdded e.dn)
  /-- The values that the diff does not name keep their order, and their spelling. -/
  order : ¬ Text.same "modifyTimestamp" d.memberAttribute = true →
    ((e'.attributes.values d.memberAttribute).filter fun v => !Text.holds (diff.namedIn e.dn) v) =
      (e.attributes.values d.memberAttribute).filter fun v => !Text.holds (diff.namedIn e.dn) v
  /-- No other attribute changes, but for the time stamp. -/
  attributes (name : String) : ¬ Text.same d.memberAttribute name = true →
    ¬ Text.same "modifyTimestamp" name = true → e'.attributes.get? name = e.attributes.get? name

namespace Provisioner

variable {p : Provisioner} {kind : MembershipKind} {diff : Diff GroupMembership}
  {dir after : Directory}

/-- A diff that goes through is realised in each entry. -/
theorem realised_of_applyDiff {e : Entry} (hmem : e ∈ dir.entries.list)
    (hdistinct : Text.Distinct (e.attributes.values (p.descriptor kind).memberAttribute))
    (hrun : dir.run ((p.descriptor kind).applyDiff p.supply diff) = (.ok (), after)) :
    ∃ e', after.entry? e.dn = some e' ∧ (p.descriptor kind).Realised diff e e' := by
  have hentry : dir.entries.get? e.dn = some e := dir.entries.get?_eq_some_iff.2 ⟨hmem, rfl⟩
  have hnamed := ((named_membershipFrame p).keeps_applyDiff kind diff).of_run hrun e.dn
  rw [Directory.storedName, Directory.storedName, hentry, Option.map_some] at hnamed
  obtain ⟨e', hentry', hname⟩ := Option.map_eq_some_iff.1 hnamed
  have hvalues (hstamp : ¬ Text.same "modifyTimestamp" (p.descriptor kind).memberAttribute = true) :
      e'.attributes.values (p.descriptor kind).memberAttribute =
        (referencesIn diff.effectiveAdded e.dn).foldl Text.addNew
          ((referencesIn diff.effectiveRemoved e.dn).foldl Text.dropFirst
            (e.attributes.values (p.descriptor kind).memberAttribute)) := by
    obtain ⟨stored, hstored, hvalues⟩ :=
      (KindDescriptor.alters_applyDiff hstamp hrun).stored hentry
    cases hentry'.symm.trans hstored
    exact hvalues
  have hnot {r : String} (hr : r ∈ diff.namedIn e.dn) (v : String) (hv : Text.same v r = true) :
      (!Text.holds (diff.namedIn e.dn) v) = false := by
    rw [Text.holds, List.any_eq_true.2 ⟨r, hr, hv⟩]
    rfl
  refine ⟨e', hentry', hname, fun hstamp => ?_, fun hstamp => ?_, fun name hname hstamp => ?_⟩
  · rw [hvalues hstamp, Text.foldedSet_foldl_addNew, Text.foldedSet_foldl_dropFirst hdistinct]
  · rw [hvalues hstamp, Text.filter_foldl fun added hadded _ => ?_,
      Text.filter_foldl fun removed hremoved _ => ?_]
    · exact Text.filter_dropFirst (hnot (List.mem_append_left _ hremoved))
    · exact Text.filter_addNew (hnot (List.mem_append_right _ hadded) added (Text.same_refl added))
  · have hskips : Skips e.dn name dir after :=
      (KindDescriptor.keeps_skips_applyDiff hname hstamp p.supply diff).of_run hrun
    rw [Skips, hentry, hentry'] at hskips
    exact Option.some.inj hskips

/-- **A diff is realised, or a beginning of it is.** -/
theorem applyDiff_outcomes (p : Provisioner) (kind : MembershipKind) (diff : Diff GroupMembership)
    {dir : Directory} (hdistinct : ∀ e ∈ dir.entries.list,
      Text.Distinct (e.attributes.values (p.descriptor kind).memberAttribute)) :
    (∀ after, dir.run ((p.descriptor kind).applyDiff p.supply diff) = (.ok (), after) →
      Named dir after ∧ ∀ e ∈ dir.entries.list, ∃ e', after.entry? e.dn = some e' ∧
        (p.descriptor kind).Realised diff e e') ∧
    (∀ err after, dir.run ((p.descriptor kind).applyDiff p.supply diff) = (.error err, after) →
      ∃ done failed mid,
        done ++ [failed] <+: p.turn kind diff.effectiveRemoved diff.effectiveAdded ∧
        dir.run (done.forM (Errand.carryOut p.supply)) = (.ok (), mid) ∧
        mid.run (failed.carryOut p.supply) = (.error err, after) ∧
        after.entries = mid.entries ∧
        after.journal = dir.journal ++ (done ++ [failed]).map Errand.request) := by
  constructor
  · intro after hrun
    exact ⟨((named_membershipFrame p).keeps_applyDiff kind diff).of_run hrun,
      fun e hmem => realised_of_applyDiff hmem (hdistinct e hmem) hrun⟩
  · intro err after hrun
    rw [applyDiff_eq_forM] at hrun
    obtain ⟨done, failed, rest, mid, hturn, hdone, hfailed⟩ := Directory.run_forM_error hrun
    have hafter := Errand.run_carryOut_error hfailed
    refine ⟨done, failed, mid, ⟨rest, ?_⟩, hdone, hfailed, ?_, ?_⟩
    · rw [hturn, List.append_assoc, List.singleton_append]
    · rw [hafter, Directory.record_entries]
    · rw [hafter, List.map_append, ← List.append_assoc, ← Errand.journal_forM_carryOut hdone]
      rfl

end Provisioner

namespace Sample

/-- Two members of a group are to leave it, and a new one is to join. -/
def teamChanges (leaving : String) : Diff GroupMembership :=
  (({} : Diff GroupMembership).removeAll [⟨"ann", smallTeam.dn⟩, ⟨leaving, smallTeam.dn⟩]).addAll
    [⟨"carl", smallTeam.dn⟩]

/-- The changes in a directory with the group. -/
def teamChanged (leaving : String) : Except DirectoryError Unit × Directory :=
  (Directory.empty.seed smallTeam).run
    ((provisioner.descriptor .posix).applyDiff provisioner.supply (teamChanges leaving))

/-- Members leave whatever the case of their references is. One that is no member ends the changes. -/
theorem teamChanged_outcomes :
    (∃ e', Directory.entry? (teamChanged "BEA").2 smallTeam.dn = some e' ∧
        Text.foldedSet (e'.attributes.values "memberUid") = {"carl"}) ∧
      ∃ done failed, done ++ [failed] <+: provisioner.turn .posix
          (teamChanges "zoe").effectiveRemoved (teamChanges "zoe").effectiveAdded ∧
        (teamChanged "zoe").2.journal = (done ++ [failed]).map Errand.request := by
  have hdistinct : ∀ e ∈ (Directory.empty.seed smallTeam).entries.list,
      Text.Distinct (e.attributes.values (provisioner.descriptor .posix).memberAttribute) := by
    decide +kernel
  have hdone : (teamChanged "BEA").1 = .ok () := by decide +kernel
  have hfailed : (teamChanged "zoe").1 =
      .error (.noSuchAttribute "cn=team,dc=x" "memberUid" (some "zoe")) := by decide +kernel
  constructor
  · obtain ⟨-, hrealised⟩ :=
      (Provisioner.applyDiff_outcomes provisioner .posix (teamChanges "BEA") hdistinct).1
        (teamChanged "BEA").2 (Prod.ext hdone rfl)
    obtain ⟨e', hentry, hteam⟩ := hrealised smallTeam (List.mem_singleton_self _)
    refine ⟨e', hentry, (hteam.members (by decide +kernel)).trans ?_⟩
    decide +kernel
  · obtain ⟨done, failed, _, hturn, -, -, -, hjournal⟩ :=
      (Provisioner.applyDiff_outcomes provisioner .posix (teamChanges "zoe") hdistinct).2 _
        (teamChanged "zoe").2 (Prod.ext hfailed rfl)
    exact ⟨done, failed, hturn, hjournal⟩

/-- The server writes its time stamp over what a diff adds under that name. -/
theorem stamped_addition_lost :
    let team := name "cn" "team"
    let member := (stamped.descriptor .static).memberAttribute
    let diff : Diff GroupMembership := ({} : Diff GroupMembership).add ⟨"cn=ann,dc=x", team⟩
    let outcome := annBesideTeam.run ((stamped.descriptor .static).applyDiff stamped.supply diff)
    stamped.configuration.check = .ok () ∧
      (∀ e ∈ annBesideTeam.entries.list, Text.Distinct (e.attributes.values member)) ∧
      annBesideTeam.entry? team ≠ none ∧ outcome.1 = .ok () ∧
      Text.foldedSet (outcome.2.valuesAt team member) ≠
        Text.foldedSet (annBesideTeam.valuesAt team member) \
          Text.foldedSet (referencesIn diff.effectiveRemoved team) ∪
          Text.foldedSet (referencesIn diff.effectiveAdded team) := by
  decide +kernel

end Sample

end Roster
