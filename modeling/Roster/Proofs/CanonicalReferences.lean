import Roster.Proofs.Creation
import Roster.Proofs.MissingEntries
import Roster.Proofs.SuppliedValues

/-!
# The references that are written

An entry joins a group under the least of its references. An operation finds this reference in the
directory, once it has changed the entry, or works it out beforehand: for a new entry from its name
and its attributes, and for an update that supplies references, or leads to a name with some of
them, from these. `run_joins_least` goes through the references that an operation writes, and says
when each of them is the least that the entry has in the end: always, unless an update foretells
another one (`Operation.Foretells`).
-/

namespace Roster

open Directory (Unwritten unwritten_frame)

/-! ## The least reference of a stored entry -/

/-- There is an entry at the name, and a text is the least of its values of an attribute. -/
def Directory.HoldsLeast (dir : Directory) (dn : Dn) (name text : String) : Prop :=
  ∃ e, dir.entry? dn = some e ∧ Text.Least text (e.attributes.values name)

theorem Directory.HoldsLeast.spared {dir after : Directory} {dn : Dn} {name text : String}
    (h : dir.HoldsLeast dn name text) (hspares : Spares dn name dir after) :
    after.HoldsLeast dn name text := by
  obtain ⟨e, hstored, hleast⟩ := h
  obtain ⟨e', hafter, hvalues⟩ := hspares.stored hstored
  rw [← hvalues] at hleast
  exact ⟨e', hafter, hleast⟩

namespace Text

theorem Least.unique {x y : String} {xs : List String} (hx : Least x xs) (hy : Least y xs) :
    x = y :=
  String.le_antisymm (hx.2 y hy.1) (hy.2 x hx.1)

end Text

namespace Provisioner

variable {p : Provisioner} {kind : MembershipKind} {dn : Dn} {dir mid after : Directory}
  {reference : String}

/-- Attributes that only the input of an operation gives values to stay as they are. -/
def SparesPlain (p : Provisioner) (dn : Dn) (dir after : Directory) : Prop :=
  ∀ name, p.IsPlain name → Spares dn name dir after

theorem sparesPlain_membershipFrame (p : Provisioner) (dn : Dn) :
    MembershipFrame p (p.SparesPlain dn) where
  refl dir name _ := (spares_frame dn name).refl dir
  trans hab hbc name hplain := (spares_frame dn name).trans (hab name hplain) (hbc name hplain)
  quiet h name _ := h.spares dn name
  add kind m dir _ hplain :=
    (spares_membershipFrame hplain.member hplain.timeStamp dn).add kind m dir
  remove kind m dir _ hplain :=
    (spares_membershipFrame hplain.member hplain.timeStamp dn).remove kind m dir

theorem keeps_sparesPlain_writePassword (p : Provisioner) (dn : Dn) (op : ModifyOp)
    (stored : Option String) : Keeps (p.SparesPlain dn) (p.writePassword dn op stored) := by
  refine (sparesPlain_membershipFrame p dn).keeps_writePassword stored
    fun value dir name hplain => ?_
  refine keeps_spares_modify hplain.timeStamp (fun _ item hitem => ?_) dir
  rw [List.mem_singleton.1 hitem]
  exact hplain.password

/-- A text is the least reference for a kind that the entry at a name has. -/
def IsReference (p : Provisioner) (kind : MembershipKind) (dn : Dn) (dir : Directory)
    (reference : String) : Prop :=
  ∀ name, (p.descriptor kind).reference = .valueOf name → p.IsPlain name →
    dir.HoldsLeast dn name reference

theorem IsReference.spared (h : p.IsReference kind dn dir reference)
    (hspares : p.SparesPlain dn dir after) : p.IsReference kind dn after reference :=
  fun name hvalue hplain => (h name hvalue hplain).spared (hspares name hplain)

/-- The canonical one of the references that are read is the least of the entry. -/
theorem isReference_of_read {found : Option (List String)}
    (hread : dir.run ((p.descriptor kind).readReferenceValues dn) = (.ok found, mid))
    (hcanonical : found.bind canonicalReference? = some reference) :
    p.IsReference kind dn mid reference := by
  intro name hvalue _
  cases hentry : dir.entry? dn with
  | none =>
    obtain ⟨⟨err, herr⟩, -⟩ := KindDescriptor.rejects_readReferenceValues hvalue hentry
    rw [hread] at herr
    cases herr
  | some e =>
    obtain ⟨after, hquiet, hrun⟩ := (p.descriptor kind).run_readReferenceValues (.inl hentry)
    replace hrun := hrun.resolve_right fun hmissing =>
      absurd (hentry.symm.trans hmissing.1) (Option.some_ne_none e)
    rw [hread] at hrun
    cases hrun
    refine ⟨e, by rw [Directory.entry?, hquiet.1]; exact hentry, ?_⟩
    rw [KindDescriptor.referencesOf_valueOf hvalue] at hcanonical
    exact (least_of_canonicalReference? hcanonical).congr fun r =>
      KindDescriptor.mem_referenceValues_none hvalue

/-- What is done under the reference that the entry has now. -/
theorem run_current_ok {f : String → Action Unit}
    (hrun : dir.run (do
      let found ← liftM ((p.descriptor kind).readReferenceValues dn)
      let reference ← p.requireCanonical kind dn found
      f reference) = (.ok (), after)) :
    ∃ reference mid, dir.Unwritten mid ∧ p.IsReference kind dn mid reference ∧
      mid.run (f reference) = (.ok (), after) := by
  obtain ⟨found, read, hread, hrest⟩ := Directory.run_bind_ok.1 hrun
  obtain ⟨reference, mid, hrequire, hlast⟩ := Directory.run_bind_ok.1 hrest
  replace hread := Directory.run_lift_ok hread
  have hquiet := ((p.descriptor kind).keeps_unwritten_readReferenceValues dn).of_run hread
  have hquiet' := (p.keeps_unwritten_requireCanonical kind dn found).of_run hrequire
  have hcanonical := (p.ends_requireCanonical_least kind dn found).of_run_ok hrequire
  refine ⟨reference, mid, unwritten_frame.trans hquiet hquiet', ?_, hlast⟩
  exact (isReference_of_read hread hcanonical).spared fun name _ => hquiet'.spares dn name

/-! ## Turns -/

/-- The requests for memberships of a kind have all been done between two directories. -/
def TakesTurn (p : Provisioner) (kind : MembershipKind) (ended begun : List GroupMembership)
    (dir after : Directory) : Prop :=
  Course p.supply .directory dir (p.turn kind ended begun)
    (.ok () : Except ProvisioningError Unit) after

variable {ended begun : List GroupMembership}

/-- One turn for each kind, done without a failure. -/
def TakesTurns (p : Provisioner) (ended begun : MembershipKind → List GroupMembership)
    (dir after : Directory) : Prop :=
  Course p.supply .directory dir (p.turns ended begun)
    (.ok () : Except ProvisioningError Unit) after

theorem keeps_sparesPlain_turn {errand : Errand} (h : errand ∈ p.turn kind ended begun) (dn : Dn) :
    Keeps (p.SparesPlain dn) (errand.mutation.send p.supply) := by
  have hmodify (group : Dn) (op : ModifyOp) (values : List String) : Keeps (p.SparesPlain dn)
      (Directory.modify p.supply group [⟨op, (p.descriptor kind).memberAttribute, values⟩]) := by
    intro dir name hplain
    refine keeps_spares_modify hplain.timeStamp (fun _ item hitem => ?_) dir
    rw [List.mem_singleton.1 hitem]
    exact hplain.member kind
  rcases List.mem_append.1 h with hleave | hjoin
  · obtain ⟨m, -, rfl⟩ := List.mem_map.1 hleave
    exact hmodify m.group .delete [m.reference]
  · obtain ⟨m, -, rfl⟩ := List.mem_map.1 hjoin
    exact hmodify m.group .add [m.reference]

theorem TakesTurn.spared (h : p.TakesTurn kind ended begun dir after) (dn : Dn) :
    p.SparesPlain dn dir after :=
  h.keeps (sparesPlain_membershipFrame p dn).toFrame (sparesPlain_membershipFrame p dn).quiet
    fun _ herrand => keeps_sparesPlain_turn herrand dn

theorem TakesTurns.spared {ended begun : MembershipKind → List GroupMembership}
    (h : p.TakesTurns ended begun dir after) (dn : Dn) : p.SparesPlain dn dir after := by
  refine h.keeps (sparesPlain_membershipFrame p dn).toFrame (sparesPlain_membershipFrame p dn).quiet
    fun errand herrand => ?_
  obtain ⟨kind, -, herrand⟩ := List.mem_flatMap.1 herrand
  exact keeps_sparesPlain_turn herrand dn

theorem takesTurn_applyDiff {diff : Diff GroupMembership}
    (hrun : dir.run (liftM ((p.descriptor kind).applyDiff p.supply diff) : Action Unit) =
      (.ok (), after)) :
    p.TakesTurn kind diff.effectiveRemoved diff.effectiveAdded dir after := by
  obtain ⟨_, rfl, hcourse⟩ := (p.issues_applyDiff kind diff).lift.course hrun
  exact hcourse

/-- A plan adds the memberships that it has foreseen, and others under the reference that the entry
has when it is carried out. -/
theorem takesTurn_applyReferences {plan : ReferencePlan}
    (hrun : dir.run (p.applyReferences dn plan) = (.ok (), after)) :
    ∃ ended begun, p.TakesTurn plan.kind ended begun dir after ∧ ∀ m ∈ begun,
      m ∈ plan.diff.added ∨ plan.deferred ≠ [] ∧ p.IsReference plan.kind dn after m.reference := by
  unfold applyReferences at hrun
  dsimp only at hrun
  split at hrun
  · have hturn := takesTurn_applyDiff hrun
    exact ⟨_, _, hturn, fun m hm => .inl (OrderedSet.mem_difference.1 hm).1⟩
  · next hdeferred =>
    obtain ⟨reference, mid, hquiet, href, happly⟩ := run_current_ok hrun
    have hturn := takesTurn_applyDiff happly
    refine ⟨_, _, hturn.of_unwritten hquiet, fun m hm => ?_⟩
    rcases OrderedSet.mem_of_mem_insertAll (OrderedSet.mem_difference.1 hm).1 with hadded | hlater
    · exact .inl hadded
    · obtain ⟨group, -, rfl⟩ := List.mem_map.1 hlater
      exact .inr ⟨fun hnone => hdeferred (List.isEmpty_iff.2 hnone), href.spared (hturn.spared dn)⟩

/-- Groups are joined under the reference that the entry has. -/
theorem takesTurn_joinGroups {requests : GroupRequests}
    (hrun : dir.run (p.joinGroups dn requests kind) = (.ok (), after)) :
    ∃ begun, p.TakesTurn kind [] begun dir after ∧
      ∀ m ∈ begun, p.IsReference kind dn after m.reference := by
  unfold joinGroups at hrun
  dsimp only at hrun
  split at hrun
  · cases hrun
    exact ⟨[], .rest (unwritten_frame.refl dir), nofun⟩
  · obtain ⟨reference, mid, hquiet, href, hjoin⟩ := run_current_ok hrun
    obtain ⟨_, rfl, hcourse⟩ := (p.issues_addMemberships kind reference _).lift.course hjoin
    have hturn : p.TakesTurn kind [] _ mid after := hcourse
    refine ⟨_, hturn.of_unwritten hquiet, fun m hm => ?_⟩
    obtain ⟨group, -, rfl⟩ := List.mem_map.1 hm
    exact href.spared (hturn.spared dn)

/-- Three turns one after the other; what begins in each of them may be known in terms of the
directory that it leaves. -/
theorem takesTurns_of_turns {S : MembershipKind → Directory → GroupMembership → Prop}
    (hspared : ∀ {kind dir after m}, S kind dir m → p.SparesPlain dn dir after → S kind after m)
    {ended begun endedPosix begunPosix endedAlias begunAlias : List GroupMembership}
    {static posix : Directory} (hstatic : p.TakesTurn .static ended begun dir static)
    (hposix : p.TakesTurn .posix endedPosix begunPosix static posix)
    (halias : p.TakesTurn .mailAlias endedAlias begunAlias posix after)
    (hbegun : ∀ m ∈ begun, S .static static m) (hbegunPosix : ∀ m ∈ begunPosix, S .posix posix m)
    (hbegunAlias : ∀ m ∈ begunAlias, S .mailAlias after m) :
    p.TakesTurns (MembershipKind.pick ended endedPosix endedAlias)
        (MembershipKind.pick begun begunPosix begunAlias) dir after ∧
      ∀ kind, ∀ m ∈ MembershipKind.pick begun begunPosix begunAlias kind, S kind after m := by
  refine ⟨?_, fun kind m hm => ?_⟩
  · unfold TakesTurns
    rw [turns_pick]
    exact hstatic.append (hposix.append halias)
  · cases kind with
    | static =>
      exact hspared (hbegun m hm) ((sparesPlain_membershipFrame p dn).trans (hposix.spared dn)
        (halias.spared dn))
    | posix => exact hspared (hbegunPosix m hm) (halias.spared dn)
    | mailAlias => exact hbegunAlias m hm

/-- The groups listed for all kinds are joined under the references that the entry has. -/
theorem takesTurns_joinAll {requests : GroupRequests}
    (hrun : dir.run (MembershipKind.all.forM (p.joinGroups dn requests)) = (.ok (), after)) :
    ∃ begun, p.TakesTurns (fun _ => []) begun dir after ∧
      ∀ kind, ∀ m ∈ begun kind, p.IsReference kind dn after m.reference := by
  unfold MembershipKind.all at hrun
  rw [List.forM_eq_forM, List.forM_cons, List.forM_cons, List.forM_cons, List.forM_nil,
    bind_pure_unit] at hrun
  obtain ⟨_, static, hstatic, hrest⟩ := Directory.run_bind_ok.1 hrun
  obtain ⟨_, posix, hposix, halias⟩ := Directory.run_bind_ok.1 hrest
  obtain ⟨begun, hturn, hbegun⟩ := takesTurn_joinGroups hstatic
  obtain ⟨begunPosix, hturnPosix, hbegunPosix⟩ := takesTurn_joinGroups hposix
  obtain ⟨begunAlias, hturnAlias, hbegunAlias⟩ := takesTurn_joinGroups halias
  obtain ⟨hturns, hall⟩ := takesTurns_of_turns
    (S := fun kind dir m => p.IsReference kind dn dir m.reference) IsReference.spared
    hturn hturnPosix hturnAlias hbegun hbegunPosix hbegunAlias
  rw [MembershipKind.pick_same] at hturns
  exact ⟨_, hturns, hall⟩

/-! ## Updates -/

/-- What the plan of an update says of the memberships of a kind: a membership that begins is
foreseen, or it is under the reference that the entry has. -/
def Begins (p : Provisioner) (plan : UpdatePlan) (dn : Dn) (kind : MembershipKind) (dir : Directory)
    (m : GroupMembership) : Prop :=
  ∀ r ∈ plan.references, r.kind = kind →
    m ∈ r.diff.added ∨ r.deferred ≠ [] ∧ p.IsReference kind dn dir m.reference

theorem Begins.spared {plan : UpdatePlan} {m : GroupMembership}
    (h : p.Begins plan dn kind dir m) (hspares : p.SparesPlain dn dir after) :
    p.Begins plan dn kind after m :=
  fun r hr hkind => (h r hr hkind).imp_right fun hlater => ⟨hlater.1, hlater.2.spared hspares⟩

/-- What an update settles after its move. -/
theorem course_settle {plan : UpdatePlan} {posix mailAlias : ReferencePlan}
    (hlist : plan.references = [posix, mailAlias]) (hposix : posix.kind = .posix)
    (halias : mailAlias.kind = .mailAlias) (hrun : dir.run (p.settle plan dn) = (.ok (), after)) :
    ∃ ended begun, Course p.supply .directory dir
        (p.settledErrands dn plan.naming ended begun plan.password)
        (.ok () : Except ProvisioningError Unit) after ∧
      ∀ kind, ∀ m ∈ begun kind, p.Begins plan dn kind after m := by
  unfold settle at hrun
  rw [hlist, List.forM_eq_forM, List.forM_cons, List.forM_cons, List.forM_nil,
    bind_pure_unit] at hrun
  obtain ⟨_, named, hnaming, hrest⟩ := Directory.run_bind_ok.1 hrun
  obtain ⟨_, static, hstatic, hrest⟩ := Directory.run_bind_ok.1 hrest
  obtain ⟨_, followed, hreferences, hpassword⟩ := Directory.run_bind_ok.1 hrest
  obtain ⟨_, posixDone, hposixRun, haliasRun⟩ := Directory.run_bind_ok.1 hreferences
  obtain ⟨endedPosix, begunPosix, hturnPosix, hbegunPosix⟩ := takesTurn_applyReferences hposixRun
  obtain ⟨endedAlias, begunAlias, hturnAlias, hbegunAlias⟩ := takesTurn_applyReferences haliasRun
  rw [hposix] at hturnPosix hbegunPosix
  rw [halias] at hturnAlias hbegunAlias
  have hplans {r : ReferencePlan} (hr : r ∈ plan.references) : r = posix ∨ r = mailAlias := by
    rw [hlist] at hr
    exact List.mem_pair.1 hr
  have hbeginsStatic (m : GroupMembership) : p.Begins plan dn .static static m := by
    intro r hr hkind
    rcases hplans hr with rfl | rfl
    · cases hposix.symm.trans hkind
    · cases halias.symm.trans hkind
  have hbeginsPosix : ∀ m ∈ begunPosix, p.Begins plan dn .posix posixDone m := by
    intro m hm r hr hkind
    rcases hplans hr with rfl | rfl
    · exact hbegunPosix m hm
    · cases halias.symm.trans hkind
  have hbeginsAlias : ∀ m ∈ begunAlias, p.Begins plan dn .mailAlias followed m := by
    intro m hm r hr hkind
    rcases hplans hr with rfl | rfl
    · cases hposix.symm.trans hkind
    · exact hbegunAlias m hm
  obtain ⟨hturns, hbegins⟩ := takesTurns_of_turns (S := p.Begins plan dn) Begins.spared
    (takesTurn_applyDiff hstatic) hturnPosix hturnAlias (fun m _ => hbeginsStatic m) hbeginsPosix
    hbeginsAlias
  have hspares := (p.keeps_sparesPlain_writePassword dn .replace plan.password).of_run hpassword
  obtain ⟨_, rfl, hnamingCourse⟩ := (p.issues_sendItems dn plan.naming).course hnaming
  obtain ⟨_, rfl, hpasswordCourse⟩ :=
    (p.issues_writePassword dn .replace plan.password).course hpassword
  exact ⟨_, _, hnamingCourse.append (hturns.append hpasswordCourse),
    fun kind m hm => (hbegins kind m hm).spared hspares⟩

/-- What an update sends between its plan and its end. -/
theorem Stages.course {e : Entry} {input : Input} {plan : UpdatePlan} {landed : Dn}
    {planned sent moved settled : Directory} (hplan : p.PlannedInFull dn e dir.entries input plan)
    (hstages : p.Stages dn dir plan planned sent landed moved settled after) :
    ∃ ended begun, Course p.supply .directory dir
        (p.updateErrands dn plan.rename plan.ordinary plan.naming ended begun plan.password)
        (.ok () : Except ProvisioningError Unit) after ∧
      ∀ kind, ∀ m ∈ begun kind, p.Begins plan landed kind after m := by
  obtain ⟨posix, mailAlias, hlist, hposix, halias⟩ := hplan.references
  obtain ⟨ended, begun, hsettle, hbegins⟩ :=
    course_settle hlist hposix.kind_eq halias.kind_eq hstages.run_settle
  obtain rfl := (p.ends_move dn plan.rename).of_run_ok hstages.run_move
  obtain ⟨_, rfl, hvalues⟩ :=
    (p.issues_modifyValues dn .replace plan.ordinary).course hstages.run_values
  obtain ⟨_, rfl, hmove⟩ := (p.issues_move dn plan.rename).course hstages.run_move
  have hend : Course p.supply .directory settled []
      (.ok () : Except ProvisioningError Unit) after := .rest hstages.quiet_end
  have hall := (hvalues.append (hmove.append (hsettle.append hend))).of_unwritten hstages.quiet_plan
  rw [List.append_nil] at hall
  exact ⟨ended, begun, hall, fun kind m hm =>
    (hbegins kind m hm).spared fun name _ => hstages.quiet_end.spares _ name⟩

/-- Groups are left for later only if the references are not known in advance. -/
theorem PlansReferences.references_of_deferred {e : Entry} {entries : Entries} {renamed : Bool}
    {references : Option (List String)} {request : GroupRequest} {plan : ReferencePlan}
    (h : PlansReferences p kind dn e entries renamed references request plan)
    (hdeferred : plan.deferred ≠ []) : references = none := by
  cases h with
  | follow => exact absurd rfl hdeferred
  | replace _ _ _ _ _ hlisted =>
    cases hlisted with
    | nothing | now => exact absurd rfl hdeferred
    | later _ hunknown _ => exact hunknown

/-- The plan for a kind whose references are values. -/
theorem PlannedInFull.exists_reference {e : Entry} {entries : Entries} {input : Input}
    {plan : UpdatePlan} (h : p.PlannedInFull dn e entries input plan) (hkind : kind ≠ .static) :
    ∃ r ∈ plan.references, r.kind = kind ∧
      PlansReferences p kind dn e entries (renameFor? dn input.name).isSome
        (p.plannedReferences dn input kind) ((p.applyStatus input).2.get kind) r ∧
      p.OnlyFollows kind dn e entries (p.plannedReferences dn input kind)
        ((p.applyStatus input).2.get kind) r ∧
      p.AddsForetold kind dn e (renameFor? dn input.name).isSome (p.plannedReferences dn input kind)
        r := by
  obtain ⟨posix, mailAlias, hlist, hposix, halias⟩ := h.references
  obtain ⟨posix', mailAlias', hlist', hfollows, hfollowsAlias⟩ := h.follows
  rw [hlist] at hlist'
  cases hlist'
  have hposixTold := h.foretold posix (by rw [hlist]; exact List.mem_cons_self)
  have haliasTold := h.foretold mailAlias (by rw [hlist]; simp)
  rw [hposix.kind_eq] at hposixTold
  rw [halias.kind_eq] at haliasTold
  cases kind with
  | static => exact absurd rfl hkind
  | posix => exact ⟨posix, by rw [hlist]; simp, hposix.kind_eq, hposix, hfollows, hposixTold⟩
  | mailAlias =>
    exact ⟨mailAlias, by rw [hlist]; simp, halias.kind_eq, halias, hfollowsAlias, haliasTold⟩

/-- An update foretells the least reference of a kind: if it plans references, the least of these is
the least that the entry has afterwards, and the entry is not moved below itself. -/
def Foretells (p : Provisioner) (dir : Directory) (dn : Dn) (input : Input) (kind : MembershipKind)
    (name : String) : Prop :=
  ∀ e new reference, dir.entry? dn = some e → p.plannedReferences dn input kind = some new →
    Text.Least reference new → ¬ Directory.NestsItself dn (landing dn (renameFor? dn input.name)) ∧
      Text.Least reference (valuesAfter dn e input name)

/-- What an update leaves of an attribute has a least value, unless it moves the entry below itself.
-/
theorem holdsLeast_after_iff {name : String} {e : Entry} {input : Input} {plan : UpdatePlan}
    {landed : Dn} {planned sent moved settled : Directory}
    (hplan : p.Planned dn e dir.entries input plan)
    (hstages : p.Stages dn dir plan planned sent landed moved settled after)
    (hstored : dir.entry? dn = some e) (hplain : p.IsPlain name)
    (hsplit : (plan.naming, plan.ordinary) =
      splitNaming (renameFor? dn input.name) input.ordinary) (text : String) :
    after.HoldsLeast landed name text ↔
      ¬ Directory.NestsItself dn landed ∧ Text.Least text (valuesAfter dn e input name) := by
  obtain ⟨-, hstays, hgone⟩ := values_after hplan hstages hstored hplain hsplit
  constructor
  · rintro ⟨e', hfound, hleast⟩
    by_cases hnests : Directory.NestsItself dn landed
    · rw [hgone hnests] at hfound
      cases hfound
    · obtain ⟨e'', hfound', hvalues⟩ := hstays hnests
      cases hfound.symm.trans hfound'
      rw [hvalues] at hleast
      exact ⟨hnests, hleast⟩
  · rintro ⟨hnests, hleast⟩
    obtain ⟨e', hfound, hvalues⟩ := hstays hnests
    rw [← hvalues] at hleast
    exact ⟨e', hfound, hleast⟩

/-- Without a move, references that are not planned stay as they are. -/
theorem valuesAfter_of_unplanned {name : String} {e : Entry} {input : Input}
    (hvalue : (p.descriptor kind).reference = .valueOf name)
    (hrename : renameFor? dn input.name = none) (hnew : p.plannedReferences dn input kind = none) :
    valuesAfter dn e input name = e.attributes.values name := by
  cases hget : input.ordinary.get? name with
  | none =>
    rw [valuesAfter, hrename, hget]
    rfl
  | some values =>
    rw [plannedReferences_of_listed hvalue hget] at hnew
    cases hnew

/-- **The references that an update writes** are the least that the entry has afterwards exactly if
the update foretells that. -/
theorem holdsLeast_iff_foretells {name : String} {e : Entry} {input : Input} {plan : UpdatePlan}
    {landed : Dn} {planned sent moved settled : Directory} {m : GroupMembership}
    (hplan : p.PlannedInFull dn e dir.entries input plan)
    (hstages : p.Stages dn dir plan planned sent landed moved settled after)
    (hstatus : p.status = .ignore) (hstored : dir.entry? dn = some e)
    (hvalue : (p.descriptor kind).reference = .valueOf name) (hplain : p.IsPlain name)
    (hbegins : p.Begins plan landed kind after m) :
    after.HoldsLeast landed name m.reference ↔ p.Foretells dir dn input kind name := by
  have hsplit := hplan.toPlanned.split_of_ignore hstatus
  have hafter := holdsLeast_after_iff hplan.toPlanned hstages hstored hplain hsplit m.reference
  obtain ⟨hlanded, -⟩ := values_after hplan.toPlanned hstages hstored hplain hsplit
  have hkind : kind ≠ .static := by
    rintro rfl
    cases hvalue
  obtain ⟨r, hr, hrkind, hplans, -, htold⟩ := hplan.exists_reference hkind
  cases hnew : p.plannedReferences dn input kind with
  | none =>
    -- Nothing is foretold: the reference is read, now or before anything changes it.
    refine iff_of_true ?_ fun e' new _ _ hknown => absurd (hnew.symm.trans hknown) nofun
    rcases hbegins r hr hrkind with hadded | ⟨-, href⟩
    · obtain ⟨hunmoved, hleast⟩ := htold m hadded
      have hrename : renameFor? dn input.name = none := by
        simpa using hunmoved hnew
      rw [hnew] at hleast
      replace hleast : ((p.descriptor kind).referencesOf dn e).bind canonicalReference? =
        some m.reference := hleast
      rw [KindDescriptor.referencesOf_valueOf hvalue] at hleast
      rw [hafter, valuesAfter_of_unplanned hvalue hrename hnew, hlanded, hrename]
      exact ⟨fun hnests => hnests.2 (Dn.same_iff.2 rfl),
        (least_of_canonicalReference? hleast).congr fun _ =>
          KindDescriptor.mem_referenceValues_none hvalue⟩
    · exact href name hvalue hplain
  | some new =>
    have hadded := (hbegins r hr hrkind).resolve_right fun hlater =>
      absurd (hnew.symm.trans (hplans.references_of_deferred hlater.1)) nofun
    have hleast : Text.Least m.reference new := by
      have hcanonical := (htold m hadded).2
      rw [hnew] at hcanonical
      exact Text.least_of_least? hcanonical
    rw [hafter, hlanded]
    constructor
    · intro h e' new' reference hstored' hknown hleast'
      cases hstored.symm.trans hstored'
      cases hnew.symm.trans hknown
      rw [hleast'.unique hleast]
      exact h
    · exact fun h => h e new m.reference hstored hnew hleast

/-- An update of an entry that is not stored lets it join no groups of a kind whose references are
values. -/
theorem not_begins_of_missing {entryClass : EntryClass} {uid uid' : String}
    {attributes : List InputAttribute} {e : Entry} {input : Input} {plan : UpdatePlan} {landed : Dn}
    (hresolve : (dir.run (p.resolve entryClass uid)).1 = .ok dn) (hmissing : dir.entry? dn = none)
    (hinput : Input.partition .update attributes = .ok input)
    (hrun : dir.run (p.update entryClass uid attributes) = (.ok uid', after))
    (hplan : p.PlannedInFull dn e dir.entries input plan) (hkind : kind ≠ .static)
    (m : GroupMembership) : ¬ p.Begins plan landed kind after m := by
  have hneeds : ¬ p.NeedsReferences dn input kind := by
    intro hneeded
    have hrejects : dir.Rejects (p.update entryClass uid attributes) := by
      refine rejects_update fun dn' input' hresolve' hinput' => ?_
      cases hresolve.symm.trans hresolve'
      cases hinput.symm.trans hinput'
      exact ⟨hmissing, .inr (.inr (.inl ⟨kind, hkind, hneeded⟩))⟩
    obtain ⟨⟨err, herr⟩, -⟩ := hrejects
    rw [hrun] at herr
    cases herr
  obtain ⟨r, hr, hrkind, -, hfollows, -⟩ := hplan.exists_reference hkind
  intro hbegins
  rw [hfollows.eq_nothing hneeds] at hr
  rcases hbegins _ hr rfl with hadded | ⟨hdeferred, -⟩
  · cases hadded
  · exact hdeferred rfl

/-! ## The other operations -/

/-- What a new entry has of an attribute that only its input gives values to. -/
theorem mem_values_stamped {supply : Supply} {tick : Nat} {attrs : Attributes} {name v : String}
    (hplain : p.IsPlain name) (huuid : ¬ Text.same "entryUUID" name = true)
    (hcreated : ¬ Text.same "createTimestamp" name = true) :
    v ∈ (Directory.stamped supply tick dn attrs).values name ↔
      v ∈ dn.leafValues name ∨ v ∈ attrs.values name := by
  have hnone : serverValues? supply tick dn name = none := by
    simp [serverValues?, hplain.timeStamp, hcreated, hplain.entryDn, huuid]
  rw [values_stamped, hnone, Option.getD_none, OrderedSet.mem_insertAll, or_comm]

theorem values_withPassword {attrs : Attributes} {name : String} (hplain : p.IsPlain name)
    (stored : Option String) : (p.withPassword attrs stored).values name = attrs.values name := by
  unfold withPassword
  cases stored with
  | none => rfl
  | some value => rw [Attributes.values_put, if_neg hplain.password]

/-- A new entry joins groups under the least reference that it has. -/
theorem course_create {entryClass : EntryClass} {attributes : List InputAttribute} {uid : String}
    (hrun : dir.run (p.create entryClass attributes) = (.ok uid, after)) :
    ∃ dn input begun stored, (Operation.create entryClass attributes).Concerns p dir dn input ∧
      Course p.supply .directory dir
        ((Operation.create entryClass attributes).errands p dn input (fun _ => []) begun stored)
        (.ok () : Except ProvisioningError Unit) after ∧
      ∀ kind name, (p.descriptor kind).reference = .valueOf name → p.IsPlain name →
        ¬ Text.same "entryUUID" name = true → ¬ Text.same "createTimestamp" name = true →
          ∀ m ∈ begun kind, after.HoldsLeast dn name m.reference := by
  obtain ⟨input, dn, reference, joins, stored, added, joined, hstages, hidentify⟩ := create_ok hrun
  obtain ⟨hinput, hname, hjoins, -, hadd, hjoin⟩ := hstages
  obtain ⟨_, rfl, haddition⟩ := (Issues.add dn _).course hadd
  obtain ⟨_, rfl, hturns⟩ := (p.issues_applyJoins fun kind => (hjoins kind).removed).course hjoin
  have hend := (p.keeps_unwritten_identify entryClass dn).of_run hidentify
  have hlast : Course p.supply .directory joined []
      (.ok () : Except ProvisioningError Unit) after := .rest hend
  refine ⟨dn, input, fun kind => (joins kind).effectiveAdded, stored, ⟨hinput, hname⟩, ?_,
    fun kind name hvalue hplain huuid hcreated m hm => ?_⟩
  · have hall := haddition.lift.append (hturns.append hlast)
    rw [List.append_nil] at hall
    exact hall
  · have hadded : m ∈ (joins kind).added := (OrderedSet.mem_difference.1 hm).1
    obtain ⟨hreference, hgroup⟩ := (hjoins kind).of_mem hadded
    have hleast := least_of_canonicalReference? ((hjoins kind).canonical (List.ne_nil_of_mem hgroup))
    rw [← hreference] at hleast
    have hentry : added.entry? dn = some ⟨dn, Directory.stamped p.supply dir.handled dn
        (p.withPassword (p.newAttributes entryClass (p.applyStatus input).1) stored)⟩ :=
      (Directory.get?_of_add hadd dn).trans (if_pos rfl)
    have hthere : added.HoldsLeast dn name m.reference := by
      refine ⟨_, hentry, hleast.congr fun v => ?_⟩
      rw [KindDescriptor.mem_referenceValues_some hvalue, mem_values_stamped hplain huuid hcreated,
        values_withPassword hplain]
    have hspares : p.SparesPlain dn added joined := TakesTurns.spared hturns dn
    exact (hthere.spared (hspares name hplain)).spared (hend.spares dn name)

/-- An addition of values lets the entry join groups under the least reference that it has then. -/
theorem course_addValues {entryClass : EntryClass} {uid uid' : String}
    {attributes : List InputAttribute}
    (hrun : dir.run (p.addValues entryClass uid attributes) = (.ok uid', after)) :
    ∃ dn input begun stored,
      (Operation.addValues entryClass uid attributes).Concerns p dir dn input ∧
      Course p.supply .directory dir
        ((Operation.addValues entryClass uid attributes).errands p dn input (fun _ => []) begun
          stored) (.ok () : Except ProvisioningError Unit) after ∧
      ∀ kind, ∀ m ∈ begun kind, p.IsReference kind dn after m.reference := by
  unfold addValues at hrun
  obtain ⟨dn, resolved, hresolve, hrest⟩ := Directory.run_bind_ok.1 hrun
  obtain ⟨input, _, hpartition, hrest⟩ := Directory.run_bind_ok.1 hrest
  obtain ⟨hinput, rfl⟩ := run_ofInput_ok hpartition
  rw [← bind_assoc] at hrest
  obtain ⟨stored, hashed, hstored, hrest⟩ := Directory.run_bind_ok.1 hrest
  obtain ⟨_, sent, hvalues, hrest⟩ := Directory.run_bind_ok.1 hrest
  obtain ⟨_, written, hpassword, hrest⟩ := Directory.run_bind_ok.1 hrest
  obtain ⟨_, joined, hjoin, hend⟩ := Directory.run_bind_ok.1 hrest
  cases hend
  obtain ⟨_, rfl, hvaluesCourse⟩ := (p.issues_modifyValues dn .add input.ordinary).course hvalues
  obtain ⟨_, rfl, hpasswordCourse⟩ := (p.issues_writePassword dn .add stored).course hpassword
  obtain ⟨begun, hturns, hbegun⟩ := takesTurns_joinAll hjoin
  have hquiet : dir.Unwritten hashed := unwritten_frame.trans
    ((p.keeps_unwritten_resolve entryClass uid).of_run hresolve)
    ((p.keeps_unwritten_stored input).of_run hstored)
  have hall := (hvaluesCourse.append (hpasswordCourse.append hturns)).of_unwritten hquiet
  exact ⟨dn, input, begun, stored, ⟨by rw [hresolve], hinput⟩, hall, hbegun⟩

/-- An update writes references as its plan says. -/
theorem course_update {entryClass : EntryClass} {uid uid' : String}
    {attributes : List InputAttribute} (hstatus : p.status = .ignore)
    (hrun : dir.run (p.update entryClass uid attributes) = (.ok uid', after)) :
    ∃ dn input ended begun stored,
      (Operation.update entryClass uid attributes).Concerns p dir dn input ∧
      Course p.supply .directory dir
        ((Operation.update entryClass uid attributes).errands p dn input ended begun stored)
        (.ok () : Except ProvisioningError Unit) after ∧
      ∀ kind name, (p.descriptor kind).reference = .valueOf name → p.IsPlain name →
        ∀ m ∈ begun kind,
          (after.HoldsLeast (landing dn (renameFor? dn input.name)) name m.reference ↔
            p.Foretells dir dn input kind name) := by
  obtain ⟨dn, resolved, hresolved, hrest⟩ := Directory.run_bind_ok.1 hrun
  obtain ⟨input, _, hpartition, -⟩ := Directory.run_bind_ok.1 hrest
  obtain ⟨hinput, -⟩ := run_ofInput_ok hpartition
  have hresolve : (dir.run (p.resolve entryClass uid)).1 = .ok dn := by rw [hresolved]
  obtain ⟨e, hentry⟩ : ∃ e, dir.entry? dn = some e ∨ dir.entry? dn = none := by
    cases dir.entry? dn with
    | some e => exact ⟨e, .inl rfl⟩
    | none => exact ⟨⟨dn, .empty⟩, .inr rfl⟩
  obtain ⟨plan, planned, sent, landed, moved, settled, hplan, hstages⟩ :=
    update_stages_inFull hresolve hentry hinput hrun
  obtain ⟨ended, begun, hcourse, hbegins⟩ := hstages.course hplan
  have hlanded := (p.ends_move dn plan.rename).of_run_ok hstages.run_move
  rw [hplan.rename_eq] at hlanded
  subst hlanded
  refine ⟨dn, input, ended, begun, plan.password, ⟨hresolve, hinput⟩, ?_,
    fun kind name hvalue hplain m hm => ?_⟩
  · have hnaming := congrArg Prod.fst hplan.split_eq
    have hordinary := congrArg Prod.snd hplan.split_eq
    dsimp only at hnaming hordinary
    rw [hplan.rename_eq, hnaming, hordinary] at hcourse
    exact hcourse
  · rcases hentry with hstored | hmissing
    · exact holdsLeast_iff_foretells hplan hstages hstatus hstored hvalue hplain (hbegins kind m hm)
    · have hkind : kind ≠ .static := by
        rintro rfl
        cases hvalue
      exact absurd (hbegins kind m hm)
        (not_begins_of_missing hresolve hmissing hinput hrun hplan hkind m)

end Provisioner

namespace Operation

/-- The name that the entry of an operation has afterwards. -/
def destination (dn : Dn) (input : Input) : Operation → Dn
  | .update .. => Provisioner.landing dn (Provisioner.renameFor? dn input.name)
  | .create .. | .addValues .. | .removeValues .. => dn

/-- Nothing but the input of the operation gives values to an attribute. A new entry gets an
identifier and a time of creation from the server. -/
def LeavesAlone (p : Provisioner) (name : String) : Operation → Prop
  | .create .. => p.IsPlain name ∧ ¬ Text.same "entryUUID" name = true ∧
      ¬ Text.same "createTimestamp" name = true
  | .update .. | .addValues .. | .removeValues .. => p.IsPlain name

/-- What the operation knows in advance about the references of a kind comes true. -/
def Foretells (p : Provisioner) (dir : Directory) (dn : Dn) (input : Input) (kind : MembershipKind)
    (name : String) : Operation → Prop
  | .update .. => p.Foretells dir dn input kind name
  | .create .. | .addValues .. | .removeValues .. => True

end Operation

/-- **The references that are written.** An operation that succeeds, without a status policy, sends
its requests in its order. Each reference that it adds to a group is the least that the entry has in
the end, unless it is an update that foretells another one. -/
theorem run_joins_least (p : Provisioner) (op : Operation) (dir after : Directory) (uid' : String)
    (hstatus : p.status = .ignore) (hrun : dir.run (op.run p) = (.ok uid', after)) :
    ∃ dn input ended begun stored requests, op.Concerns p dir dn input ∧
      after.journal = dir.journal ++ requests ∧
      requests.filter Request.isMutation =
        (op.errands p dn input ended begun stored).map Errand.request ∧
      ∀ kind name, (p.descriptor kind).reference = .valueOf name → op.LeavesAlone p name →
        ∀ m ∈ begun kind, (after.HoldsLeast (op.destination dn input) name m.reference ↔
          op.Foretells p dir dn input kind name) := by
  cases op with
  | create entryClass attributes =>
    obtain ⟨dn, input, begun, stored, hconcerns, hcourse, hleast⟩ := Provisioner.course_create hrun
    obtain ⟨requests, hjournal, hsent⟩ := hcourse.journal_eq
    refine ⟨dn, input, _, begun, stored, requests, hconcerns, hjournal, hsent, ?_⟩
    rintro kind name hvalue ⟨hplain, huuid, hcreated⟩ m hm
    exact iff_of_true (hleast kind name hvalue hplain huuid hcreated m hm) trivial
  | update entryClass uid attributes =>
    obtain ⟨dn, input, ended, begun, stored, hconcerns, hcourse, hleast⟩ :=
      Provisioner.course_update hstatus hrun
    obtain ⟨requests, hjournal, hsent⟩ := hcourse.journal_eq
    exact ⟨dn, input, ended, begun, stored, requests, hconcerns, hjournal, hsent, hleast⟩
  | addValues entryClass uid attributes =>
    obtain ⟨dn, input, begun, stored, hconcerns, hcourse, hleast⟩ :=
      Provisioner.course_addValues hrun
    obtain ⟨requests, hjournal, hsent⟩ := hcourse.journal_eq
    refine ⟨dn, input, _, begun, stored, requests, hconcerns, hjournal, hsent, ?_⟩
    exact fun kind name hvalue hplain m hm =>
      iff_of_true (hleast kind m hm name hvalue hplain) trivial
  | removeValues entryClass uid attributes =>
    -- A removal adds no references.
    obtain ⟨sent, hcourse, hrest⟩ :=
      (Operation.removeValues entryClass uid attributes).orderly p dir
    rw [hrun] at hcourse hrest
    rcases hrest with ⟨-, ⟨err, herr⟩, -⟩ |
      ⟨dn, input, _, hconcerns, ⟨ended, _, stored, -, rfl⟩, -, hall⟩
    · cases herr
    · obtain ⟨requests, hjournal, hsent⟩ := hcourse.journal_eq
      rw [hall uid' rfl] at hsent
      exact ⟨dn, input, ended, fun _ => [], stored, requests, hconcerns, hjournal, hsent, nofun⟩

namespace Sample

/-- A directory with an entry that has two references, and a group. -/
def bobAndTeam : Directory :=
  directory [(name "uid" "bob", [("uid", ["bob", "ann"])]), (name "cn" "team", [("cn", ["team"])])]

/-- An update that gives the entry another name and lets it join the group. -/
def carlJoins : List InputAttribute :=
  [⟨"__NAME__", [.text "uid=carl,dc=x"]⟩, ⟨"posixGroups", [.text "cn=team,dc=x"]⟩]

/-- The same update, with all references that the entry shall have. -/
def carlAndDoraJoin : List InputAttribute :=
  ⟨"uid", [.text "carl", .text "dora"]⟩ :: carlJoins

/-- The directory after such an update. -/
def bobJoined (attributes : List InputAttribute) : Directory :=
  (bobAndTeam.run (provisioner.update .account "uid=bob,dc=x" attributes)).2

/-- With all references in the update, what it writes is the least of them. -/
theorem carlAndDora_join_least : ∃ dn input ended begun stored requests,
    (bobJoined carlAndDoraJoin).journal = bobAndTeam.journal ++ requests ∧
      requests.filter Request.isMutation = ((Operation.update .account "uid=bob,dc=x"
        carlAndDoraJoin).errands provisioner dn input ended begun stored).map Errand.request ∧
      ∀ m ∈ begun .posix,
        (bobJoined carlAndDoraJoin).HoldsLeast (name "uid" "carl") "uid" m.reference := by
  obtain ⟨dn, input, ended, begun, stored, requests, ⟨hresolve, hinput⟩, hjournal, hsent, hleast⟩ :=
    run_joins_least provisioner (.update .account "uid=bob,dc=x" carlAndDoraJoin) bobAndTeam
      (bobJoined carlAndDoraJoin) "uid=carl,dc=x" rfl (Directory.run_of_result (by decide +kernel))
  refine ⟨dn, input, ended, begun, stored, requests, hjournal, hsent, fun m hm => ?_⟩
  have hsorted : Input.partition .update carlAndDoraJoin =
      .ok { name := some (name "uid" "carl"), ordinary := .ofList [("uid", ["carl", "dora"])],
            requests := { posix := .replace [name "cn" "team"] } } := by decide +kernel
  have hresolved : (bobAndTeam.run (provisioner.resolve .account "uid=bob,dc=x")).1 =
      .ok (name "uid" "bob") := by decide +kernel
  cases hsorted.symm.trans hinput
  cases hresolved.symm.trans hresolve
  have hlanding : Provisioner.landing (name "uid" "bob") (Provisioner.renameFor? (name "uid" "bob")
      (some (name "uid" "carl"))) = name "uid" "carl" := by decide +kernel
  have hiff := hleast .posix "uid" rfl isPlain_uid m hm
  rw [Operation.destination, hlanding] at hiff
  refine hiff.2 fun e new reference hstored hplanned hleast => ?_
  have hentry : bobAndTeam.entry? (name "uid" "bob") =
      some ⟨name "uid" "bob", .ofList [("uid", ["bob", "ann"])]⟩ := by decide +kernel
  cases hentry.symm.trans hstored
  have hnew : provisioner.plannedReferences (name "uid" "bob")
      { name := some (name "uid" "carl"), ordinary := .ofList [("uid", ["carl", "dora"])],
        requests := { posix := .replace [name "cn" "team"] } } .posix = some ["carl", "dora"] := by
    decide +kernel
  cases hnew.symm.trans hplanned
  have hafter : Provisioner.valuesAfter (name "uid" "bob")
      ⟨name "uid" "bob", .ofList [("uid", ["bob", "ann"])]⟩
      { name := some (name "uid" "carl"), ordinary := .ofList [("uid", ["carl", "dora"])],
        requests := { posix := .replace [name "cn" "team"] } } "uid" = ["carl", "dora"] := by
    decide +kernel
  rw [hafter]
  exact ⟨fun hnests => absurd hnests.1 (by decide +kernel), hleast⟩

/-- Without them the update takes the value in the new name for the only reference, and writes it
although the entry keeps one that comes before it. -/
theorem carl_joins_beside_ann :
    (bobAndTeam.run (provisioner.update .account "uid=bob,dc=x" carlJoins)).1 =
        .ok "uid=carl,dc=x" ∧
      bobAndTeam.valuesAt (name "cn" "team") "memberUid" = [] ∧
      (bobJoined carlJoins).valuesAt (name "cn" "team") "memberUid" = ["carl"] ∧
      (bobJoined carlJoins).valuesAt (name "uid" "carl") "uid" = ["ann", "carl"] ∧
      ¬ (bobJoined carlJoins).HoldsLeast (name "uid" "carl") "uid" "carl" := by
  have hvalues : (bobJoined carlJoins).valuesAt (name "uid" "carl") "uid" = ["ann", "carl"] := by
    decide +kernel
  refine ⟨by decide +kernel, by decide +kernel, by decide +kernel, hvalues, ?_⟩
  rintro ⟨e, hentry, hleast⟩
  rw [Directory.valuesAt_of_entry? hentry] at hvalues
  rw [hvalues] at hleast
  exact absurd (hleast.2 "ann" List.mem_cons_self) (by decide)

end Sample

end Roster
