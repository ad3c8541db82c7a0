import Roster.Proofs.Planning
import Roster.Proofs.Retention
import Mathlib.Control.Monad.Basic

/-!
# Updates that strand memberships

An update must not leave an entry without a reference that groups hold. It refuses to when the input
lists the reference attribute without values and no value is in the name. `update_strands_iff` says
which updates get through and strand memberships all the same (`Strands`): one that empties the
attribute while a value of it stands in the name, a rename by which the last values go with the old
relative name, and a rename of an entry to a name below itself.
-/

namespace Roster

namespace Provisioner

variable {p : Provisioner} {dn : Dn} {e : Entry} {name : String}

/-! ## References that are given up -/

/-- **A reference in use is not given up knowingly.** -/
theorem Planned.keeps_used {kind : MembershipKind} {input : Input} {plan : UpdatePlan}
    {entries : Entries} (h : Planned p dn e entries input plan)
    (hvalue : (p.descriptor kind).reference = .valueOf name) {reference : String}
    (hmem : reference ∈ e.attributes.values name)
    (huse : (p.descriptor kind).InUse p.bases entries reference) :
    ¬ (input.ordinary.get? name = some [] ∧
      (targetOf dn (renameFor? dn input.name)).leafValues name = []) := by
  intro hgone
  have hkind : kind ≠ .static := by
    rintro rfl
    cases hvalue
  have hnone := h.unused kind hkind ((plannedReferences_eq_nil hvalue).2 hgone)
  have hreference : reference ∈ (p.referencesOf kind dn e).getD [] :=
    (KindDescriptor.mem_referencesOf hvalue).2 hmem
  obtain ⟨m, hm, -⟩ := (KindDescriptor.exists_reference_foundIn hvalue hreference).2 huse
  rw [membershipsOf] at hnone
  rw [hnone] at hm
  cases hm

/-! ## The stages of an update -/

/-- The replacement of attributes puts the new values in place, but for the time stamp. -/
theorem run_modifyValues_replace {dir after : Directory} {new : Attributes}
    (hstored : dir.entry? dn = some e)
    (hrun : dir.run (p.modifyValues dn .replace new) = (.ok (), after)) :
    ∃ e', after.entry? dn = some e' ∧ ∀ name,
      e'.attributes.values name = (new.get? name).getD (e.attributes.values name) ∨
        Text.same "modifyTimestamp" name = true ∧ e'.attributes.values name ≠ [] := by
  rcases run_sendItems_ok hrun with ⟨hempty, rfl⟩ | hmodify
  · refine ⟨e, hstored, fun name => .inl ?_⟩
    rw [Attributes.get?, List.map_eq_nil_iff.1 hempty]
    rfl
  · obtain ⟨-, e', attrs, hentry, happly, rfl⟩ := Directory.run_modify_ok hmodify
    cases hstored.symm.trans hentry
    refine ⟨_, (Entries.get?_insert_stamped hentry _ dn).trans (if_pos rfl), fun name => ?_⟩
    dsimp only
    rw [Attributes.values_put]
    split
    · next htime => exact .inr ⟨htime, List.cons_ne_nil _ _⟩
    · exact .inl (Attributes.values_applyAll_replacements happly name)

/-- Where an entry is after its move, and what it has there. -/
theorem run_move_ok {sent moved : Directory} {rename : Option Rename} {landed : Dn}
    (hstored : sent.entry? dn = some e)
    (hrun : sent.run (p.move dn rename) = (.ok landed, moved)) :
    landed = landing dn rename ∧ (rename = none → moved = sent) ∧ ∀ r, rename = some r →
      (¬ Directory.NestsItself dn landed → moved.entries.get? landed = some ⟨landed,
        Directory.renamedAttributes p.supply sent.handled dn landed r.rdn e.attributes⟩) ∧
      (Directory.NestsItself dn landed → moved.entries.get? landed = none) := by
  unfold move at hrun
  cases rename with
  | none =>
    cases hrun
    exact ⟨rfl, fun _ => rfl, nofun⟩
  | some r =>
    obtain ⟨hlanded, -, e', hentry, hfound⟩ :=
      Directory.run_rename_ok (Directory.run_lift_ok hrun)
    cases hstored.symm.trans hentry
    refine ⟨hlanded, nofun, fun r' heq => ?_⟩
    cases heq
    exact hfound

/-- A move leads to the relative name that is asked for. -/
theorem leaf?_of_renameFor? {asked : Option Dn} {r : Rename} (h : renameFor? dn asked = some r) :
    r.target.leaf? = some r.rdn :=
  (renameFor?_eq_some h).2.2.1

/-! ## What gets through -/

/-- An update strands the memberships under an attribute: it empties the attribute while a value of
it stands in the name, it moves the entry below itself, or all values that are left for the attribute
go with the old relative name. -/
def Strands (dn : Dn) (e : Entry) (input : Input) (name : String) : Prop :=
  match renameFor? dn input.name with
  | none => input.ordinary.get? name = some [] ∧ dn.leafValues name ≠ []
  | some r =>
    Directory.NestsItself dn (landing dn (some r)) ∨
      r.rdn.valuesOf name = [] ∧ input.ordinary.get? name ≠ some [] ∧
        ∀ v ∈ (input.ordinary.get? name).getD (e.attributes.values name),
          Text.holds (dn.leafValues name) v = true

/-- The attributes that an update replaces before its move, if there is no status policy. -/
theorem Planned.split_of_ignore {input : Input} {plan : UpdatePlan} {entries : Entries}
    (h : Planned p dn e entries input plan) (hstatus : p.status = .ignore) :
    (plan.naming, plan.ordinary) = splitNaming (renameFor? dn input.name) input.ordinary := by
  have happly : (p.applyStatus input).1 = input.ordinary := by
    unfold applyStatus
    rw [hstatus]
    cases input.enable <;> rfl
  rw [← happly]
  exact h.split_eq

/-- Without a move, the replacement of the attribute decides. -/
theorem hasValues_unmoved {input : Input} {sent : Directory} {e' : Entry}
    (hsent : sent.entry? dn = some e') (hrename : renameFor? dn input.name = none)
    (hwritten : e'.attributes.values name =
        (input.ordinary.get? name).getD (e.attributes.values name) ∨
      Text.same "modifyTimestamp" name = true ∧ e'.attributes.values name ≠ [])
    (hne : e.attributes.values name ≠ [])
    (hkept : ¬ (input.ordinary.get? name = some [] ∧ dn.leafValues name = [])) :
    (¬ Strands dn e input name → sent.entries.HasValues dn name) ∧
      (Strands dn e input name → p.IsPlain name → ¬ sent.entries.HasValues dn name) := by
  unfold Strands
  rw [hrename]
  dsimp only
  constructor
  · intro hnot
    refine ⟨e', hsent, ?_⟩
    rcases hwritten with hvalues | ⟨-, hvalues⟩
    · rw [hvalues]
      intro hnil
      cases hget : input.ordinary.get? name with
      | none =>
        rw [hget] at hnil
        exact hne hnil
      | some values =>
        rw [hget, Option.getD_some] at hnil
        rw [hnil] at hget
        exact hkept ⟨hget, Classical.byContradiction fun hleaf => hnot ⟨hget, hleaf⟩⟩
    · exact hvalues
  · rintro ⟨hget, -⟩ hplain
    rw [Entries.not_hasValues_iff]
    intro e'' hfound
    cases hsent.symm.trans hfound
    rcases hwritten with hvalues | ⟨htime, -⟩
    · rw [hvalues, hget]
      rfl
    · exact absurd htime hplain.timeStamp

/-- With a move, the old relative name takes its values along and the new one brings some. -/
theorem hasValues_moved {input : Input} {moved : Directory} {e' : Entry} {r : Rename} {tick : Nat}
    (hrename : renameFor? dn input.name = some r)
    (hwritten : r.rdn.valuesOf name = [] → e'.attributes.values name =
        (input.ordinary.get? name).getD (e.attributes.values name) ∨
      Text.same "modifyTimestamp" name = true ∧ e'.attributes.values name ≠ [])
    (hstays : ¬ Directory.NestsItself dn (landing dn (some r)) →
      moved.entries.get? (landing dn (some r)) = some ⟨landing dn (some r),
        Directory.renamedAttributes p.supply tick dn (landing dn (some r)) r.rdn e'.attributes⟩)
    (hgone : Directory.NestsItself dn (landing dn (some r)) →
      moved.entries.get? (landing dn (some r)) = none)
    (hkept : ¬ (input.ordinary.get? name = some [] ∧ r.rdn.valuesOf name = [])) :
    (¬ Strands dn e input name → moved.entries.HasValues (landing dn (some r)) name) ∧
      (Strands dn e input name → p.IsPlain name →
        ¬ moved.entries.HasValues (landing dn (some r)) name) := by
  unfold Strands
  rw [hrename]
  dsimp only
  constructor
  · intro hnot
    rw [not_or] at hnot
    refine ⟨_, hstays hnot.1, ?_⟩
    by_cases hnew : r.rdn.valuesOf name = []
    · rcases hwritten hnew with hvalues | ⟨htime, -⟩
      · refine Directory.values_renamedAttributes_ne_nil _ _ _ _ _ _ (.inr ?_)
        -- Something must be left, or the update would strand the entry.
        refine Classical.byContradiction fun hnone => hnot.2 ⟨hnew, fun h => hkept ⟨h, hnew⟩, ?_⟩
        rw [← hvalues]
        exact fun v hv => Classical.byContradiction fun hv' =>
          hnone ⟨v, hv, Bool.not_eq_true _ ▸ hv'⟩
      · dsimp only
        rw [Directory.renamedAttributes, Attributes.values_put, if_pos htime]
        exact List.cons_ne_nil _ _
    · exact Directory.values_renamedAttributes_ne_nil _ _ _ _ _ _ (.inl hnew)
  · intro hstrands hplain
    rw [Entries.not_hasValues_iff]
    intro e'' hfound
    by_cases hnests : Directory.NestsItself dn (landing dn (some r))
    · rw [hgone hnests] at hfound
      cases hfound
    · obtain ⟨hnew, -, hall⟩ := hstrands.resolve_left hnests
      rw [hstays hnests] at hfound
      cases hfound
      dsimp only
      rw [Directory.values_renamedAttributes _ _ _ _ _ _ hplain.entryDn hplain.timeStamp, hnew,
        OrderedSet.insertAll_nil, List.filter_eq_nil_iff]
      rcases hwritten hnew with hvalues | ⟨htime, -⟩
      · intro v hv
        rw [hvalues] at hv
        rw [hall v hv]
        exact Bool.false_ne_true
      · exact absurd htime hplain.timeStamp

/-- What an update that succeeds leaves of an attribute right after the move. -/
theorem hasValues_landed {input : Input} {plan : UpdatePlan} {planned sent moved : Directory}
    {landed : Dn} {entries : Entries} (hstatus : p.status = .ignore)
    (hplan : Planned p dn e entries input plan) (hstored : planned.entry? dn = some e)
    (hvalues : planned.run (p.modifyValues dn .replace plan.ordinary) = (.ok (), sent))
    (hmove : sent.run (p.move dn plan.rename) = (.ok landed, moved))
    (hne : e.attributes.values name ≠ [])
    (hkept : ¬ (input.ordinary.get? name = some [] ∧
      (targetOf dn (renameFor? dn input.name)).leafValues name = [])) :
    (¬ Strands dn e input name → moved.entries.HasValues landed name) ∧
      (Strands dn e input name → p.IsPlain name → ¬ moved.entries.HasValues landed name) := by
  obtain ⟨e', hsent, hwritten⟩ := run_modifyValues_replace hstored hvalues
  obtain ⟨hlanded, hunmoved, hmoved⟩ := run_move_ok hsent hmove
  have hsplit := hplan.split_of_ignore hstatus
  rw [hplan.rename_eq] at hunmoved hmoved hlanded
  cases hrename : renameFor? dn input.name with
  | none =>
    rw [hrename] at hsplit hkept hlanded
    have hordinary : plan.ordinary = input.ordinary := (Prod.mk.inj hsplit).2
    rw [hunmoved hrename, hlanded]
    exact hasValues_unmoved hsent hrename (hordinary ▸ hwritten name) hne hkept
  | some r =>
    rw [hrename] at hsplit hkept hlanded
    obtain ⟨hstays, hgone⟩ := hmoved r hrename
    subst hlanded
    refine hasValues_moved hrename (fun hnew => ?_) hstays hgone ?_
    · have hordinary : plan.ordinary.get? name = input.ordinary.get? name := by
        have htake := get?_takeNaming r.rdn.avas input.ordinary name
        rw [if_pos hnew] at htake
        rw [← htake]
        exact congrArg (fun split => Attributes.get? split name) (Prod.mk.inj hsplit).2
      rw [← hordinary]
      exact hwritten name
    · have hleaf : (targetOf dn (some r)).leafValues name = r.rdn.valuesOf name := by
        unfold targetOf Dn.leafValues
        rw [leaf?_of_renameFor? hrename]
      rw [hleaf] at hkept
      exact hkept

theorem Planned.naming_of_ignore {input : Input} {plan : UpdatePlan} {entries : Entries}
    (h : Planned p dn e entries input plan) (hstatus : p.status = .ignore) :
    ∀ item ∈ plan.naming, item.Retains ∧ ∃ r, renameFor? dn input.name = some r ∧
      ∃ ava ∈ r.rdn.avas, item.name = ava.type := by
  have hsplit := h.split_of_ignore hstatus
  intro item hitem
  cases hrename : renameFor? dn input.name with
  | none =>
    rw [hrename] at hsplit
    rw [(Prod.mk.inj hsplit).1] at hitem
    cases hitem
  | some r =>
    rw [hrename] at hsplit
    rw [(Prod.mk.inj hsplit).1] at hitem
    obtain ⟨hretains, hava⟩ := mem_takeNaming hitem
    exact ⟨hretains, r, rfl, hava⟩

/-- What was lost by the time of the move stays lost. -/
theorem lost_after_settle {input : Input} {plan : UpdatePlan} {moved settled : Directory}
    {landed : Dn} {entries : Entries} (hstatus : p.status = .ignore)
    (hplan : Planned p dn e entries input plan)
    (hlanded : landed = landing dn (renameFor? dn input.name))
    (hsettle : moved.run (p.settle plan landed) = (.ok (), settled)) (hplain : p.IsPlain name)
    (hstrands : Strands dn e input name)
    (hnested : ∀ r, renameFor? dn input.name = some r →
      Directory.NestsItself dn landed → moved.entries.get? landed = none)
    (hlost : ¬ moved.entries.HasValues landed name) :
    ¬ settled.entries.HasValues landed name := by
  by_cases hnaming : ∀ item ∈ plan.naming, ¬ Text.same item.name name = true
  · have hkeeps : Keeps (Lacking landed name) (p.settle plan landed) :=
      keeps_lacking_settle hplain hnaming
    exact hkeeps.of_run hsettle hlost
  · -- Only a name below the old one can have values of the attribute again.
    have hkeeps : Keeps (Vacant landed) (p.settle plan landed) :=
      (vacant_membershipFrame p landed).keeps_settle keeps_vacant_modify fun _ =>
        keeps_vacant_modify
    have hvacant := hkeeps.of_run hsettle
    rintro ⟨e', he', -⟩
    obtain ⟨item, hitem⟩ := Classical.not_forall.1 hnaming
    obtain ⟨hmem, hname⟩ := Classical.not_imp.1 hitem
    obtain ⟨-, r, hrename, ava, hava, htype⟩ := hplan.naming_of_ignore hstatus item hmem
    unfold Strands at hstrands
    rw [hrename] at hstrands hlanded
    have hnew : ¬ r.rdn.valuesOf name = [] := fun hnil =>
      valuesOf_eq_nil.1 hnil ava hava (htype ▸ Classical.not_not.1 hname)
    have hnests : Directory.NestsItself dn landed :=
      hlanded ▸ hstrands.resolve_right fun h => hnew h.1
    rw [hvacant (hnested r hrename hnests)] at he'
    cases he'

/-- **Which updates strand memberships.** An update that succeeds leaves an entry a value of a
reference attribute of which a value is in use, unless it is one of those that strand the memberships
or it ends a membership of the entry in itself; and those do strand them, if nothing but the input
gives the attribute values. -/
theorem update_strands_iff (p : Provisioner) (entryClass : EntryClass) (uid uid' : String)
    (attributes : List InputAttribute) (dir after : Directory) (dn : Dn) (e : Entry)
    (input : Input) (kind : MembershipKind) (name reference : String)
    (hstatus : p.status = .ignore) (hresolve : (dir.run (p.resolve entryClass uid)).1 = .ok dn)
    (hstored : dir.entry? dn = some e) (hinput : Input.partition .update attributes = .ok input)
    (hname : (p.descriptor kind).referenceAttribute? = some name)
    (hmem : reference ∈ e.attributes.values name)
    (huse : (p.descriptor kind).InUse p.bases dir.entries reference)
    (hrun : dir.run (p.update entryClass uid attributes) = (.ok uid', after)) :
    (¬ Strands dn e input name →
      after.entries.HasValues (landing dn (renameFor? dn input.name)) name ∨
        ∃ requests, after.journal = dir.journal ++ requests ∧ ∃ request ∈ requests,
          p.EndsMembership (landing dn (renameFor? dn input.name)) name request) ∧
    (Strands dn e input name → p.IsPlain name →
      ¬ after.entries.HasValues (landing dn (renameFor? dn input.name)) name) := by
  have hvalue : (p.descriptor kind).reference = .valueOf name := by
    unfold KindDescriptor.referenceAttribute? at hname
    split at hname
    · cases hname
    · next other hother =>
      cases hname
      exact hother
  obtain ⟨plan, planned, sent, landed, moved, settled, hplan, hstages⟩ :=
    update_ok hresolve hstored hinput hrun
  have hstored' : planned.entry? dn = some e := by
    rw [Directory.entry?, hstages.quiet_plan.1]
    exact hstored
  have hkept := hplan.keeps_used hvalue hmem huse
  obtain ⟨hstays, hlost⟩ := hasValues_landed hstatus hplan hstored' hstages.run_values
    hstages.run_move (List.ne_nil_of_mem hmem) hkept
  obtain ⟨e', hsent, -⟩ := run_modifyValues_replace hstored' hstages.run_values
  obtain ⟨hlanded, -, hmoved⟩ := run_move_ok hsent hstages.run_move
  rw [hplan.rename_eq] at hlanded hmoved
  rw [← hlanded]
  constructor
  · intro hnot
    have hkeeps : Keeps (p.Retains landed name) (p.settle plan landed) :=
      keeps_retains_settle fun item hitem => (hplan.naming_of_ignore hstatus item hitem).1
    have hsettled := hkeeps moved
    rw [hstages.run_settle] at hsettled
    obtain ⟨later, hlater, hretains⟩ :=
      (p.retains_frame landed name).trans hsettled (hstages.quiet_end.retains p landed name)
    obtain ⟨-, earlier, hearlier, -⟩ := hstages.logged_moved
    refine (hretains (hstays hnot)).imp id ?_
    rintro ⟨request, hmem, hends⟩
    refine ⟨earlier ++ later, ?_, request, List.mem_append_right earlier hmem, hends⟩
    rw [hlater, hearlier, List.append_assoc]
  · intro hstrands hplain
    rw [Entries.HasValues, hstages.quiet_end.1]
    exact lost_after_settle hstatus hplan hlanded hstages.run_settle hplain hstrands
      (fun r hrename => (hmoved r hrename).2) (hlost hstrands hplain)

end Provisioner

namespace Sample

/-- The entry in `annInTeam` that a group refers to. -/
def ann : Entry :=
  ⟨name "uid" "ann", .ofList [("uid", ["ann"])]⟩

/-- A rename that drops the only `uid` of an entry gets through. -/
theorem rename_away_accepted :
    (provisioner.descriptor .posix).InUse provisioner.bases annInTeam.entries "ann" ∧
      (annInTeam.run (provisioner.update .account "uid=ann,dc=x"
        [⟨"__NAME__", [.text "cn=ann,dc=x"]⟩])).1 = .ok "cn=ann,dc=x" ∧
      (Directory.entry? (annInTeam.run (provisioner.update .account "uid=ann,dc=x"
        [⟨"__NAME__", [.text "cn=ann,dc=x"]⟩])).2 (name "cn" "ann")).map
          (fun e => e.attributes.values "uid") = some [] :=
  ⟨annInTeam_inUse, by decide +kernel, by decide +kernel⟩

/-- An update of another attribute keeps the reference, and the rename loses it. -/
theorem update_keeps_and_rename_loses :
    Entries.HasValues (annInTeam.run (provisioner.update .account "uid=ann,dc=x"
        [⟨"sn", [.text "Smith"]⟩])).2.entries (name "uid" "ann") "uid" ∧
      ¬ Entries.HasValues (annInTeam.run (provisioner.update .account "uid=ann,dc=x"
        [⟨"__NAME__", [.text "cn=ann,dc=x"]⟩])).2.entries (name "cn" "ann") "uid" := by
  have hmember (kind : MembershipKind) :
      ¬ Text.same (provisioner.descriptor kind).memberAttribute "uid" = true := by
    cases kind <;> decide +kernel
  have hrename : Provisioner.renameFor? (name "uid" "ann") (some (name "cn" "ann")) =
      some ⟨name "cn" "ann", .single "cn" "ann", none⟩ := by decide +kernel
  constructor
  · have hkeeps := (Provisioner.update_strands_iff provisioner .account "uid=ann,dc=x"
      "uid=ann,dc=x" [⟨"sn", [.text "Smith"]⟩] annInTeam _ (name "uid" "ann") ann
      { ordinary := .ofList [("sn", ["Smith"])] } .posix "uid" "ann" rfl (by decide +kernel)
      (by decide +kernel) (by decide +kernel) rfl (by decide +kernel) annInTeam_inUse
      (Directory.run_of_result (by decide +kernel))).1
    have hnot : ¬ Provisioner.Strands (name "uid" "ann") ann
        { ordinary := .ofList [("sn", ["Smith"])] } "uid" := by
      rintro ⟨hlisted, -⟩
      exact absurd hlisted (by decide +kernel)
    rcases hkeeps hnot with hvalues | ⟨-, -, -, -, kind, -, -, -, hsame, -⟩
    · exact hvalues
    · exact absurd hsame (hmember kind)
  · have hloses := (Provisioner.update_strands_iff provisioner .account "uid=ann,dc=x"
      "cn=ann,dc=x" [⟨"__NAME__", [.text "cn=ann,dc=x"]⟩] annInTeam _ (name "uid" "ann") ann
      { name := some (name "cn" "ann") } .posix "uid" "ann" rfl (by decide +kernel)
      (by decide +kernel) (by decide +kernel) rfl (by decide +kernel) annInTeam_inUse
      (Directory.run_of_result (by decide +kernel))).2
    unfold Provisioner.Strands at hloses
    rw [hrename] at hloses
    refine hloses (.inr ⟨by decide +kernel, by decide +kernel, by decide +kernel⟩) ?_
    exact ⟨hmember, by decide +kernel, by decide +kernel, by decide +kernel⟩

end Sample

end Roster
