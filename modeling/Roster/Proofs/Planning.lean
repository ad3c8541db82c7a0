import Roster.Proofs.Lookups
import Roster.Proofs.Refusals
import Roster.Proofs.Values

/-!
# What an update plans

`Planned` says what stands in the plan of an update, in terms of the stored entry and of the
memberships that the entries hold: which attributes are replaced before and after a move, which
memberships go and which come. `finds_planUpdate` proves it of every plan that is made; if a
plan is made, then no reference that groups hold is given up knowingly. So an update fails before it
writes, or carries out such a plan in `Stages` (`update_plans`).
-/

namespace Roster

namespace Provisioner

/-! ## References of one kind -/

/-- The references that an update gives an entry, as its plan knows them. -/
def plannedReferences (p : Provisioner) (dn : Dn) (input : Input) (kind : MembershipKind) :
    Option (List String) :=
  newReferences (p.descriptor kind) (renameFor? dn input.name).isSome
    (targetOf dn (renameFor? dn input.name)) input.ordinary

/-- The diff that moves memberships to another reference. -/
def moveTo (reference : String) (stale : List GroupMembership) : Diff GroupMembership :=
  (({} : Diff GroupMembership).addAll (stale.map fun m => ⟨reference, m.group⟩)).removeAll stale

theorem moveTo_nil (reference : String) : moveTo reference [] = {} :=
  rfl

/-- The memberships under references that an entry loses. -/
def staleMemberships (p : Provisioner) (kind : MembershipKind) (dn : Dn) (e : Entry)
    (entries : Entries) (new : List String) : List GroupMembership :=
  let lost := ((p.referencesOf kind dn e).getD []).filter fun r => !new.contains r
  (p.membershipsOf kind dn e entries).filter fun m => lost.contains m.reference

/-- The memberships that follow new references: those under lost references, if the kind is
maintained and there are new references. -/
structure Follows (p : Provisioner) (kind : MembershipKind) (dn : Dn) (e : Entry)
    (entries : Entries) (references : Option (List String)) (reference : String)
    (stale : List GroupMembership) : Prop where
  known : stale ≠ [] → ∃ new, references = some new ∧ canonicalReference? new = some reference ∧
    stale = p.staleMemberships kind dn e entries new

/-- The memberships that follow new references: those under lost ones, if the kind is maintained and
there are new references. -/
def followers (p : Provisioner) (kind : MembershipKind) (dn : Dn) (e : Entry) (entries : Entries)
    (references : Option (List String)) : List GroupMembership :=
  match references with
  | some new =>
    if (p.descriptor kind).maintained then p.staleMemberships kind dn e entries new else []
  | none => []

variable {p : Provisioner} {dn : Dn} {e : Entry} {entries : Entries} {kind : MembershipKind}

/-- The references that the input lists are planned, after those in the name. -/
theorem plannedReferences_of_listed {name : String} {input : Input} {values : List String}
    (hvalue : (p.descriptor kind).reference = .valueOf name)
    (h : input.ordinary.get? name = some values) :
    p.plannedReferences dn input kind = some (OrderedSet.insertAll
      ((targetOf dn (renameFor? dn input.name)).leafValues name) values) := by
  have hpresent : input.ordinary.contains name = true := by
    rw [Attributes.contains, h]
    rfl
  simp [plannedReferences, newReferences, KindDescriptor.referenceAttribute?_valueOf hvalue,
    KindDescriptor.referenceValues, hvalue, h, hpresent]

/-- If the input does not list references, those in a new name are planned. -/
theorem plannedReferences_of_absent {name : String} {input : Input}
    (hvalue : (p.descriptor kind).reference = .valueOf name)
    (h : input.ordinary.get? name = none) :
    p.plannedReferences dn input kind =
      if (renameFor? dn input.name).isSome = true ∧
        (targetOf dn (renameFor? dn input.name)).leafValues name ≠ [] then
          some ((targetOf dn (renameFor? dn input.name)).leafValues name)
      else none := by
  have habsent : input.ordinary.contains name = false := by
    rw [Attributes.contains, h]
    rfl
  unfold plannedReferences newReferences
  simp only [KindDescriptor.referenceAttribute?_valueOf hvalue, bind, Option.bind_some, habsent,
    KindDescriptor.referenceValues, hvalue, h]
  cases (renameFor? dn input.name).isSome <;> simp

/-- The plan knows that an entry will be without references exactly if the attribute is listed
without values and the name has none. -/
theorem plannedReferences_eq_nil {name : String} {input : Input}
    (hvalue : (p.descriptor kind).reference = .valueOf name) :
    p.plannedReferences dn input kind = some [] ↔ input.ordinary.get? name = some [] ∧
      (targetOf dn (renameFor? dn input.name)).leafValues name = [] := by
  cases hget : input.ordinary.get? name with
  | none =>
    rw [plannedReferences_of_absent hvalue hget]
    simp
  | some values =>
    rw [plannedReferences_of_listed hvalue hget, Option.some.injEq, Option.some.injEq]
    have hne : OrderedSet.insertAll ((targetOf dn (renameFor? dn input.name)).leafValues name)
        values ≠ [] ↔ _ ≠ [] ∨ values ≠ [] := OrderedSet.insertAll_ne_nil
    rw [← not_iff_not, ← ne_eq, hne, Classical.not_and_iff_not_or_not, or_comm]

/-- What follows is a membership under a reference of the entry that is not among the new ones. -/
theorem Follows.mem {references : Option (List String)} {reference : String}
    {stale : List GroupMembership} (h : p.Follows kind dn e entries references reference stale)
    {m : GroupMembership} (hm : m ∈ stale) : m ∈ p.membershipsOf kind dn e entries := by
  obtain ⟨new, -, -, rfl⟩ := h.known (List.ne_nil_of_mem hm)
  exact (List.mem_filter.1 hm).1

/-! ## What the parts of a plan contain

Planning fails for its input, or because the entry is not there. -/

variable {E : ProvisioningError → Prop} {references : Option (List String)}

/-- There is a least reference unless there are none. -/
theorem canonicalReference?_eq_none {new : List String} :
    canonicalReference? new = none ↔ new = [] := by
  cases new with
  | nil => exact ⟨fun _ => rfl, fun _ => rfl⟩
  | cons r rest => exact ⟨nofun, nofun⟩

theorem finds_requireCanonical (target : Dn)
    (hvalid : references.bind canonicalReference? = none →
      ∀ err : ProvisioningError, err.isValidation = true → E err) :
    Finds p dn e entries (fun reference => references.bind canonicalReference? = some reference) E
      (liftM (p.requireCanonical kind target references)) := by
  refine Finds.lift (p.keeps_unwritten_requireCanonical kind target references) ?_
  unfold requireCanonical
  split
  · next reference h => exact Ends.pure h
  · next h => exact Ends.throw (hvalid h _ rfl)

/-- The followers move to the least of the new references. -/
def MovesFollowers (p : Provisioner) (kind : MembershipKind) (dn : Dn) (e : Entry)
    (entries : Entries) (references : Option (List String)) (diff : Diff GroupMembership) : Prop :=
  ∃ reference, diff = moveTo reference (p.followers kind dn e entries references) ∧
    (p.followers kind dn e entries references ≠ [] →
      references.bind canonicalReference? = some reference)

theorem MovesFollowers.follows {diff : Diff GroupMembership}
    (h : p.MovesFollowers kind dn e entries references diff) :
    ∃ reference stale, diff = moveTo reference stale ∧
      p.Follows kind dn e entries references reference stale := by
  obtain ⟨reference, rfl, hleast⟩ := h
  refine ⟨reference, _, rfl, ⟨fun hne => ?_⟩⟩
  cases references with
  | none => exact absurd rfl hne
  | some new =>
    refine ⟨new, rfl, hleast hne, ?_⟩
    unfold followers at hne ⊢
    dsimp only at hne ⊢
    split
    · rfl
    · next hnot =>
      rw [if_neg hnot] at hne
      exact absurd rfl hne

theorem finds_moveStale (hentry : entries.Reads dn e E) (target : Dn) {new : List String}
    (hmaintained : (p.descriptor kind).maintained = true)
    (hvalid : new = [] → ∀ err : ProvisioningError, err.isValidation = true → E err) :
    Finds p dn e entries (p.MovesFollowers kind dn e entries (some new)) E
      (p.moveStale kind target new) := by
  have hfollowers : p.followers kind dn e entries (some new) =
      p.staleMemberships kind dn e entries new := if_pos hmaintained
  unfold moveStale
  refine Finds.bind (Finds.lookUp_references hentry kind) fun old hold => ?_
  subst hold
  refine Finds.bind (Finds.lookUp_byReferences hentry kind _) fun stale hstale => ?_
  replace hstale : stale = p.followers kind dn e entries (some new) := hstale.trans hfollowers.symm
  subst hstale
  split
  · next hnone =>
    have hnone := List.isEmpty_iff.1 hnone
    exact Finds.pure ⟨"", by rw [hnone]; rfl, fun hne => absurd hnone hne⟩
  · refine Finds.bind (finds_requireCanonical target fun h =>
      hvalid (canonicalReference?_eq_none.1 h)) fun reference href => ?_
    exact Finds.pure ⟨reference, rfl, fun _ => href⟩

theorem finds_followReferences (hentry : entries.Reads dn e E) (target : Dn)
    (hvalid : references = some [] →
      ∀ err : ProvisioningError, err.isValidation = true → E err) :
    Finds p dn e entries (p.MovesFollowers kind dn e entries references) E
      (p.followReferences kind target references) := by
  unfold followReferences
  split
  · next new =>
    split
    · next hmaintained =>
      exact finds_moveStale hentry target hmaintained fun hnone => hvalid (congrArg some hnone)
    · next hnot =>
      have hnone : p.followers kind dn e entries (some new) = [] := if_neg hnot
      exact Finds.pure ⟨"", by rw [hnone]; rfl, fun hne => absurd hnone hne⟩
  · exact Finds.pure ⟨"", rfl, fun hne => absurd rfl hne⟩

/-- What is planned for the groups that are listed, on top of a diff. -/
inductive PlansListed (p : Provisioner) (kind : MembershipKind) (dn : Dn) (e : Entry)
    (renamed : Bool) (references : Option (List String)) (groups : List Dn)
    (diff : Diff GroupMembership) : ReferencePlan → Prop
  /-- No groups are listed. -/
  | nothing : groups = [] → PlansListed p kind dn e renamed references groups diff ⟨kind, diff, []⟩
  /-- The references are known after the move only. -/
  | later : groups ≠ [] → references = none → renamed = true →
      PlansListed p kind dn e renamed references groups diff ⟨kind, diff, groups⟩
  /-- The groups get the least reference. -/
  | now (reference : String) : groups ≠ [] →
      (references <|> p.referencesOf kind dn e).bind canonicalReference? = some reference →
      PlansListed p kind dn e renamed references groups diff
        ⟨kind, diff.addAll (groups.map fun group => ⟨reference, group⟩), []⟩

/-- What a plan adds is under the least reference that is known in advance: the least of the new
references, or of those that the entry has if it keeps its name. -/
def AddsForetold (p : Provisioner) (kind : MembershipKind) (dn : Dn) (e : Entry) (renamed : Bool)
    (references : Option (List String)) (plan : ReferencePlan) : Prop :=
  ∀ m ∈ plan.diff.added, (references = none → renamed = false) ∧
    (references <|> p.referencesOf kind dn e).bind canonicalReference? = some m.reference

theorem finds_planListed (hentry : entries.Reads dn e E) (target : Dn) (renamed : Bool)
    {groups : List Dn} {diff : Diff GroupMembership} (hdiff : diff.added = [])
    (hvalid : groups ≠ [] → (references <|> p.referencesOf kind dn e).bind canonicalReference? = none →
      ∀ err : ProvisioningError, err.isValidation = true → E err) :
    Finds p dn e entries (fun plan => PlansListed p kind dn e renamed references groups diff plan ∧
        p.AddsForetold kind dn e renamed references plan) E
      (p.planListed kind target renamed references groups diff) := by
  have hnothing (m : GroupMembership) (hm : m ∈ diff.added) : False := by
    rw [hdiff] at hm
    cases hm
  unfold planListed
  split
  · next hempty =>
    exact Finds.pure ⟨.nothing (List.isEmpty_iff.1 hempty), fun m hm => (hnothing m hm).elim⟩
  · next hgroups =>
    have hne : groups ≠ [] := fun h => hgroups (List.isEmpty_iff.2 h)
    split
    · next hlater =>
      rw [Bool.and_eq_true, Option.isNone_iff_eq_none] at hlater
      exact Finds.pure ⟨.later hne hlater.1 hlater.2, fun m hm => (hnothing m hm).elim⟩
    · next hnow =>
      refine Finds.bind (S := fun coming => coming = (references <|> p.referencesOf kind dn e)) ?_
        fun coming hcoming => ?_
      · unfold comingReferences
        split
        · exact Finds.pure rfl
        · exact Finds.lookUp_references hentry kind
      · subst hcoming
        refine Finds.bind (finds_requireCanonical target (hvalid hne)) fun reference href => ?_
        refine Finds.pure ⟨.now reference hne href, fun m hm => ⟨?_, ?_⟩⟩
        · rintro rfl
          exact Bool.eq_false_iff.2 hnow
        · rcases OrderedSet.mem_of_mem_insertAll hm with hm | hm
          · exact (hnothing m hm).elim
          · obtain ⟨group, -, rfl⟩ := List.mem_map.1 hm
            exact href

/-- What is planned for the memberships of a kind whose references are attribute values. -/
inductive PlansReferences (p : Provisioner) (kind : MembershipKind) (dn : Dn) (e : Entry)
    (entries : Entries) (renamed : Bool) (references : Option (List String))
    (request : GroupRequest) : ReferencePlan → Prop
  /-- Nothing is asked, and memberships only follow the references. -/
  | follow (reference : String) (stale : List GroupMembership) : request.isUntouched = true →
      p.Follows kind dn e entries references reference stale →
      PlansReferences p kind dn e entries renamed references request
        ⟨kind, moveTo reference stale, []⟩
  /-- All memberships go, and the listed ones come. -/
  | replace (reference : String) (stale : List GroupMembership) (plan : ReferencePlan) :
      request.isUntouched = false → p.Follows kind dn e entries references reference stale →
      PlansListed p kind dn e renamed references request.groups
        ((moveTo reference stale).removeAll (p.membershipsOf kind dn e entries)).clearAdded plan →
      PlansReferences p kind dn e entries renamed references request plan

theorem PlansReferences.kind_eq {renamed : Bool} {request : GroupRequest} {plan : ReferencePlan}
    (h : PlansReferences p kind dn e entries renamed references request plan) :
    plan.kind = kind := by
  cases h with
  | follow => rfl
  | replace _ _ _ _ _ hlisted => cases hlisted <;> rfl

/-- If nothing is asked for a kind, its followers are all that the plan moves. -/
def OnlyFollows (p : Provisioner) (kind : MembershipKind) (dn : Dn) (e : Entry) (entries : Entries)
    (references : Option (List String)) (request : GroupRequest) (plan : ReferencePlan) : Prop :=
  request.isUntouched = true →
    ∃ diff, plan = ⟨kind, diff, []⟩ ∧ p.MovesFollowers kind dn e entries references diff

/-- Memberships that follow are added under the least of the new references. -/
theorem MovesFollowers.addsForetold {renamed : Bool} {diff : Diff GroupMembership}
    (h : p.MovesFollowers kind dn e entries references diff) :
    p.AddsForetold kind dn e renamed references ⟨kind, diff, []⟩ := by
  obtain ⟨reference, rfl, hleast⟩ := h
  intro m hm
  obtain ⟨old, hold, rfl⟩ := List.mem_map.1 (OrderedSet.mem_of_mem_insertAll_nil hm)
  replace hleast := hleast (List.ne_nil_of_mem hold)
  cases references with
  | none => cases hleast
  | some new => exact ⟨nofun, hleast⟩

theorem finds_planReferences (hentry : entries.Reads dn e E) (target : Dn) (renamed : Bool)
    {request : GroupRequest}
    (hvalid : references = some [] ∨ request.groups ≠ [] ∧
        (references <|> p.referencesOf kind dn e).bind canonicalReference? = none →
      ∀ err : ProvisioningError, err.isValidation = true → E err) :
    Finds p dn e entries (fun plan =>
        PlansReferences p kind dn e entries renamed references request plan ∧
          p.OnlyFollows kind dn e entries references request plan ∧
          p.AddsForetold kind dn e renamed references plan) E
      (p.planReferences target renamed request kind references) := by
  unfold planReferences
  refine Finds.bind (finds_followReferences hentry target fun h => hvalid (.inl h))
    fun diff hdiff => ?_
  obtain ⟨reference, stale, hmoves, hfollows⟩ := hdiff.follows
  split
  · next huntouched =>
    refine Finds.pure ⟨?_, fun _ => ⟨_, rfl, hdiff⟩, hdiff.addsForetold⟩
    rw [hmoves]
    exact .follow reference stale huntouched hfollows
  · next htouched =>
    have hasked : request.isUntouched = false := Bool.not_eq_true _ ▸ htouched
    refine Finds.bind (Finds.lookUp_memberships hentry kind) fun existing hexisting => ?_
    subst hexisting hmoves
    refine (finds_planListed hentry target renamed rfl fun hne hnone => hvalid (.inr ⟨hne, hnone⟩)).mono
      (fun plan hplan => ⟨?_, fun huntouched => absurd huntouched htouched, hplan.2⟩) fun _ h => h
    exact .replace reference stale plan hasked hfollows hplan.1

/-! ## The plan as a whole -/

/-- The plan of an update, for the entry at a name. -/
structure Planned (p : Provisioner) (dn : Dn) (e : Entry) (entries : Entries) (input : Input)
    (plan : UpdatePlan) : Prop where
  dn_eq : plan.dn = dn
  rename_eq : plan.rename = renameFor? dn input.name
  split_eq : (plan.naming, plan.ordinary) =
    splitNaming (renameFor? dn input.name) (p.applyStatus input).1
  followRename_eq : plan.followRename =
    ((renameFor? dn input.name).isSome && (p.descriptor .static).maintained)
  static_eq : plan.static = (p.applyStatus input).2.static
  existing_eq : (plan.followRename || !plan.static.isUntouched) = true →
    plan.existing = p.membershipsOf .static dn e entries
  /-- The value kinds in their order. -/
  references : ∃ posix mailAlias, plan.references = [posix, mailAlias] ∧
    PlansReferences p .posix dn e entries (renameFor? dn input.name).isSome
      (p.plannedReferences dn input .posix) (p.applyStatus input).2.posix posix ∧
    PlansReferences p .mailAlias dn e entries (renameFor? dn input.name).isSome
      (p.plannedReferences dn input .mailAlias) (p.applyStatus input).2.mailAlias mailAlias
  /-- References are only given up if no group holds one. -/
  unused (kind : MembershipKind) : kind ≠ .static → p.plannedReferences dn input kind = some [] →
    p.membershipsOf kind dn e entries = []

/-- The plan of an update, with all memberships that follow, the references of those that begin, and
what becomes of the password. -/
structure PlannedInFull (p : Provisioner) (dn : Dn) (e : Entry) (entries : Entries)
    (input : Input) (plan : UpdatePlan) : Prop extends Planned p dn e entries input plan where
  password : plan.password.isSome = true ↔
    input.resetPassword = true ∨ input.password.isSome = true
  follows : ∃ posix mailAlias, plan.references = [posix, mailAlias] ∧
    p.OnlyFollows .posix dn e entries (p.plannedReferences dn input .posix)
      (p.applyStatus input).2.posix posix ∧
    p.OnlyFollows .mailAlias dn e entries (p.plannedReferences dn input .mailAlias)
      (p.applyStatus input).2.mailAlias mailAlias
  foretold (r : ReferencePlan) : r ∈ plan.references → p.AddsForetold r.kind dn e
    (renameFor? dn input.name).isSome (p.plannedReferences dn input r.kind) r

theorem finds_refuseOrphans (hentry : entries.Reads dn e E)
    (hnone : references = some [] → ∀ err, E err) :
    Finds p dn e entries
      (fun _ => references = some [] → p.membershipsOf kind dn e entries = []) E
      (p.refuseOrphans kind references) := by
  unfold refuseOrphans
  split
  · next hgone =>
    refine Finds.bind (Finds.lookUp_memberships hentry kind) fun memberships hfound => ?_
    subst hfound
    split
    · exact Finds.throw (hnone hgone _)
    · next hempty =>
      refine Finds.pure fun _ => ?_
      rw [Bool.not_eq_true', Bool.not_eq_false, List.isEmpty_iff] at hempty
      exact hempty
  · next hne => exact Finds.pure fun h => absurd h hne

theorem finds_loadStatic (hentry : entries.Reads dn e E) (needed : Bool) :
    Finds p dn e entries
      (fun existing => needed = true → existing = p.membershipsOf .static dn e entries) E
      (loadStatic needed) := by
  unfold loadStatic
  split
  · exact (Finds.lookUp_memberships hentry .static).mono (fun _ h _ => h) fun _ h => h
  · next hnot => exact Finds.pure fun h => absurd h hnot

/-- Why an update that resolves its entry may not be planned: its input is at fault, or it gives up
the references of a kind. -/
def Unplannable (p : Provisioner) (dn : Dn) (input : Input) (err : ProvisioningError) : Prop :=
  err.isValidation = true ∨ ∃ kind, kind ≠ .static ∧ p.plannedReferences dn input kind = some []

/-- An update asks for something that its plan may refuse: a password, groups of a kind of which the
entry has no reference, or that it has none. -/
def Refusable (p : Provisioner) (dn : Dn) (e : Entry) (input : Input) : Prop :=
  input.resetPassword = true ∨ input.password.isSome = true ∨
    ∃ kind, kind ≠ .static ∧ (p.plannedReferences dn input kind = some [] ∨
      ((p.applyStatus input).2.get kind).groups ≠ [] ∧
        (p.plannedReferences dn input kind <|> p.referencesOf kind dn e).bind
          canonicalReference? = none)

/-- **What a plan contains**, and why it may not be made. -/
theorem finds_planUpdate (hentry : entries.Reads dn e E) (input : Input)
    (hfail : p.Refusable dn e input → ∀ err, p.Unplannable dn input err → E err) :
    Finds p dn e entries (PlannedInFull p dn e entries input) E (p.planUpdate dn input) := by
  have horphans {kind : MembershipKind} (hkind : kind ≠ .static)
      (h : p.plannedReferences dn input kind = some []) (err : ProvisioningError) : E err :=
    hfail (.inr (.inr ⟨kind, hkind, .inl h⟩)) err (.inr ⟨kind, hkind, h⟩)
  have hvalid (h : p.Refusable dn e input) (err : ProvisioningError)
      (herr : err.isValidation = true) : E err := hfail h err (.inl herr)
  unfold planUpdate
  refine Finds.bind (finds_refuseOrphans hentry (horphans (by decide))) fun _ hposix => ?_
  refine Finds.bind (finds_refuseOrphans hentry (horphans (by decide))) fun _ halias => ?_
  refine Finds.bind (Finds.lift (p.keeps_unwritten_choosePassword input)
    ((p.ends_choosePassword input).mono (fun _ h => h) fun _ h => h.elim)) fun chosen hchosen => ?_
  refine Finds.bind (S := fun stored => stored.isSome = chosen.isSome) ?_ fun stored hstored => ?_
  · cases chosen with
    | none => exact Finds.pure rfl
    | some secret =>
      have hasked : p.Refusable dn e input := (hchosen.1 rfl).imp_right .inl
      exact Finds.lift (p.keeps_unwritten_hashPassword _)
        ((p.ends_hashPassword _).mono (fun _ h => h) fun _ h => hvalid hasked _ (h ▸ rfl))
  refine Finds.bind (finds_loadStatic hentry _) fun existing hexisting => ?_
  simp only [List.mapM_cons, List.mapM_nil, bind_assoc, pure_bind]
  refine Finds.bind (finds_planReferences hentry _ _ fun h =>
    hvalid (.inr (.inr ⟨.posix, by decide, h⟩))) fun posix hposixPlan => ?_
  refine Finds.bind (finds_planReferences hentry _ _ fun h =>
    hvalid (.inr (.inr ⟨.mailAlias, by decide, h⟩))) fun mailAlias haliasPlan => ?_
  refine Finds.pure
    { dn_eq := rfl, rename_eq := rfl, split_eq := rfl, followRename_eq := rfl, static_eq := rfl,
      existing_eq := hexisting,
      references := ⟨posix, mailAlias, rfl, hposixPlan.1, haliasPlan.1⟩,
      unused := fun kind hkind hnone => ?_,
      password := hstored ▸ hchosen,
      follows := ⟨posix, mailAlias, rfl, hposixPlan.2.1, haliasPlan.2.1⟩,
      foretold := fun r hr => ?_ }
  · cases kind with
    | static => exact absurd rfl hkind
    | posix => exact hposix hnone
    | mailAlias => exact halias hnone
  · simp only [List.mem_cons, List.not_mem_nil, or_false] at hr
    rcases hr with rfl | rfl
    · rw [hposixPlan.1.kind_eq]
      exact hposixPlan.2.2
    · rw [haliasPlan.1.kind_eq]
      exact haliasPlan.2.2

/-! ## Updates that succeed -/

/-- The name at which a move puts an entry. -/
def landing (dn : Dn) (rename : Option Rename) : Dn :=
  match rename with
  | some r => Directory.renamedDn dn r.rdn r.superior
  | none => dn

/-- What a move is made of comes from the name that is asked for. -/
theorem renameFor?_eq_some {asked : Option Dn} {r : Rename} (h : renameFor? dn asked = some r) :
    asked = some r.target ∧ r.target.same dn = false ∧ r.target.leaf? = some r.rdn ∧
      r.superior = r.target.parent?.filter fun parent => !dn.parent?.any parent.same := by
  cases asked with
  | none => cases h
  | some target =>
    unfold renameFor? at h
    dsimp only [bind, Option.bind_some] at h
    split at h
    · cases h
    · next hother =>
      obtain ⟨rdn, hleaf, hrename⟩ := Option.bind_eq_some_iff.1 h
      cases hrename
      exact ⟨rfl, Bool.eq_false_iff.2 hother, hleaf, rfl⟩

/-- The stages of an update that succeeds: it plans, replaces attributes, moves the entry and
settles what is planned for its new name. -/
structure Stages (p : Provisioner) (dn : Dn) (dir : Directory) (plan : UpdatePlan)
    (planned sent : Directory) (landed : Dn) (moved settled after : Directory) : Prop where
  quiet_plan : dir.Unwritten planned
  run_values : planned.run (p.modifyValues dn .replace plan.ordinary) = (.ok (), sent)
  run_move : sent.run (p.move dn plan.rename) = (.ok landed, moved)
  run_settle : moved.run (p.settle plan landed) = (.ok (), settled)
  quiet_end : settled.Unwritten after

/-- What comes before the settling is logged. -/
theorem Stages.logged_moved {dir : Directory} {plan : UpdatePlan}
    {planned sent moved settled after : Directory} {landed : Dn}
    (h : p.Stages dn dir plan planned sent landed moved settled after) : dir.Logged moved := by
  have hsent := (p.keeps_logged_modifyValues dn .replace plan.ordinary).of_run h.run_values
  have hmoved := (p.keeps_logged_move dn plan.rename).of_run h.run_move
  exact Directory.logged_frame.trans h.quiet_plan.logged
    (Directory.logged_frame.trans hsent hmoved)

/-- **An update** fails before anything is written, or carries out its plan. -/
theorem update_plans {entryClass : EntryClass} {uid : String}
    {attributes : List InputAttribute} {dir : Directory} {input : Input}
    (hresolve : (dir.run (p.resolve entryClass uid)).1 = .ok dn)
    (hentry : dir.entries.Reads dn e E)
    (hinput : Input.partition .update attributes = .ok input)
    (hfail : p.Refusable dn e input → ∀ err, p.Unplannable dn input err → E err) :
    (∃ err after, dir.run (p.update entryClass uid attributes) = (.error err, after) ∧
        E err ∧ dir.Unwritten after) ∨
      ∃ plan planned, PlannedInFull p dn e dir.entries input plan ∧ dir.Unwritten planned ∧
        dir.run (p.update entryClass uid attributes) =
          planned.run (p.carryOut plan >>= p.identify entryClass) := by
  have hresolved := Directory.run_of_result hresolve
  have hquiet := p.keeps_unwritten_resolve entryClass uid dir
  have hfinds := finds_planUpdate hentry input hfail (dir.run (p.resolve entryClass uid)).2
    (p.caches dn) hquiet.1 (p.agree_caches dn e dir.entries)
  unfold update
  rw [Directory.run_bind, hresolved, hinput]
  dsimp only [ofInput]
  rw [pure_bind, Directory.run_bind]
  split at hfinds
  · next plan caches planned hplan =>
    obtain ⟨hplanned, -, hquiet'⟩ := hfinds
    rw [hplan]
    exact .inr ⟨plan, planned, hplanned, Directory.unwritten_frame.trans hquiet hquiet', rfl⟩
  · next err after hplan =>
    obtain ⟨hfails, hquiet'⟩ := hfinds
    rw [hplan]
    exact .inl ⟨err, after, rfl, hfails, Directory.unwritten_frame.trans hquiet hquiet'⟩

/-- An update of a stored entry is refused before anything is written, or carries out its plan. -/
theorem update_planned {entryClass : EntryClass} {uid : String}
    {attributes : List InputAttribute} {dir : Directory} {input : Input}
    (hresolve : (dir.run (p.resolve entryClass uid)).1 = .ok dn)
    (hstored : dir.entry? dn = some e)
    (hinput : Input.partition .update attributes = .ok input) :
    (∃ err after, dir.run (p.update entryClass uid attributes) = (.error err, after) ∧
        p.Unplannable dn input err ∧ dir.Unwritten after) ∨
      ∃ plan planned, Planned p dn e dir.entries input plan ∧ dir.Unwritten planned ∧
        dir.run (p.update entryClass uid attributes) =
          planned.run (p.carryOut plan >>= p.identify entryClass) := by
  rcases update_plans hresolve (.stored hstored) hinput (fun _ _ h => h) with
    hfails | ⟨plan, planned, hplanned, hrest⟩
  · exact .inl hfails
  · exact .inr ⟨plan, planned, hplanned.toPlanned, hrest⟩

/-- **An update that succeeds** has made its plan for the entry, if there is one, and has gone
through all stages. -/
theorem update_stages_inFull {entryClass : EntryClass} {uid uid' : String}
    {attributes : List InputAttribute} {dir after : Directory} {input : Input}
    (hresolve : (dir.run (p.resolve entryClass uid)).1 = .ok dn)
    (hentry : dir.entry? dn = some e ∨ dir.entry? dn = none)
    (hinput : Input.partition .update attributes = .ok input)
    (hrun : dir.run (p.update entryClass uid attributes) = (.ok uid', after)) :
    ∃ plan planned sent landed moved settled, PlannedInFull p dn e dir.entries input plan ∧
      p.Stages dn dir plan planned sent landed moved settled after := by
  have hreads : dir.entries.Reads dn e fun _ => True :=
    hentry.imp_right fun hmissing => ⟨hmissing, trivial⟩
  rcases update_plans hresolve hreads hinput (fun _ _ _ => trivial) with
    ⟨err, refused, hrefused, -⟩ | ⟨plan, planned, hplanned, hquiet, hcarries⟩
  · rw [hrefused] at hrun
    cases hrun
  · rw [hcarries] at hrun
    obtain ⟨landed, settled, hcarried, hidentify⟩ := Directory.run_bind_ok.1 hrun
    have hend := (p.keeps_unwritten_identify entryClass landed).of_run hidentify
    unfold carryOut at hcarried
    rw [hplanned.dn_eq] at hcarried
    obtain ⟨_, sent, hvalues, hcarried⟩ := Directory.run_bind_ok.1 hcarried
    obtain ⟨landed', moved, hmove, hcarried⟩ := Directory.run_bind_ok.1 hcarried
    obtain ⟨_, settled', hsettle, hpure⟩ := Directory.run_bind_ok.1 hcarried
    cases hpure
    exact ⟨plan, planned, sent, landed, moved, settled, hplanned, hquiet, hvalues, hmove, hsettle,
      hend⟩

theorem update_stages {entryClass : EntryClass} {uid uid' : String}
    {attributes : List InputAttribute} {dir after : Directory} {input : Input}
    (hresolve : (dir.run (p.resolve entryClass uid)).1 = .ok dn)
    (hentry : dir.entry? dn = some e ∨ dir.entry? dn = none)
    (hinput : Input.partition .update attributes = .ok input)
    (hrun : dir.run (p.update entryClass uid attributes) = (.ok uid', after)) :
    ∃ plan planned sent landed moved settled, Planned p dn e dir.entries input plan ∧
      p.Stages dn dir plan planned sent landed moved settled after := by
  obtain ⟨plan, planned, sent, landed, moved, settled, hplan, hstages⟩ :=
    update_stages_inFull hresolve hentry hinput hrun
  exact ⟨plan, planned, sent, landed, moved, settled, hplan.toPlanned, hstages⟩

theorem update_ok {entryClass : EntryClass} {uid uid' : String} {attributes : List InputAttribute}
    {dir after : Directory} {input : Input}
    (hresolve : (dir.run (p.resolve entryClass uid)).1 = .ok dn)
    (hstored : dir.entry? dn = some e) (hinput : Input.partition .update attributes = .ok input)
    (hrun : dir.run (p.update entryClass uid attributes) = (.ok uid', after)) :
    ∃ plan planned sent landed moved settled, Planned p dn e dir.entries input plan ∧
      p.Stages dn dir plan planned sent landed moved settled after :=
  update_stages hresolve (.inl hstored) hinput hrun

/-! ## Naming attributes -/

theorem valuesOf_eq_nil {avas : List Ava} {name : String} :
    (⟨avas⟩ : Rdn).valuesOf name = [] ↔ ∀ ava ∈ avas, ¬ Text.same ava.type name = true := by
  unfold Rdn.valuesOf
  rw [List.map_eq_nil_iff, List.filter_eq_nil_iff]

/-- The naming attributes that are replaced keep values, and belong to the relative name. -/
theorem mem_takeNaming {avas : List Ava} {ordinary : Attributes} {item : Modification}
    (h : item ∈ (takeNaming avas ordinary).1) :
    item.Retains ∧ ∃ ava ∈ avas, item.name = ava.type := by
  induction avas generalizing ordinary with
  | nil => cases h
  | cons ava avas ih =>
    unfold takeNaming at h
    dsimp only at h
    split at h
    · obtain ⟨hretains, other, hmem, hname⟩ := ih h
      exact ⟨hretains, other, List.mem_cons_of_mem ava hmem, hname⟩
    · rcases List.mem_cons.1 h with rfl | h
      · refine ⟨.inr ⟨rfl, ?_⟩, ava, List.mem_cons_self, rfl⟩
        dsimp only
        split
        · next hholds =>
          obtain ⟨v, hv, -⟩ := Text.holds_iff.1 hholds
          exact List.ne_nil_of_mem hv
        · exact List.cons_ne_nil _ _
      · obtain ⟨hretains, other, hmem, hname⟩ := ih h
        exact ⟨hretains, other, List.mem_cons_of_mem ava hmem, hname⟩

/-- The attributes of the relative name are not sent before the move, the others are. -/
theorem get?_takeNaming (avas : List Ava) (ordinary : Attributes) (name : String) :
    (takeNaming avas ordinary).2.get? name =
      if (⟨avas⟩ : Rdn).valuesOf name = [] then ordinary.get? name else none := by
  induction avas generalizing ordinary with
  | nil => rfl
  | cons ava avas ih =>
    have hleft : (takeNaming (ava :: avas) ordinary).2 =
        (takeNaming avas (ordinary.erase ava.type)).2 := by
      rw [takeNaming]
      dsimp only
      split <;> rfl
    rw [hleft, ih, Attributes.get?_erase]
    have hcons : (⟨ava :: avas⟩ : Rdn).valuesOf name = [] ↔
        ¬ Text.same ava.type name = true ∧ (⟨avas⟩ : Rdn).valuesOf name = [] := by
      rw [valuesOf_eq_nil, valuesOf_eq_nil, List.forall_mem_cons]
    by_cases hname : Text.same ava.type name = true
    · rw [if_pos hname, ite_self, if_neg fun h => (hcons.1 h).1 hname]
    · rw [if_neg hname]
      by_cases hrest : (⟨avas⟩ : Rdn).valuesOf name = []
      · rw [if_pos hrest, if_pos (hcons.2 ⟨hname, hrest⟩)]
      · rw [if_neg hrest, if_neg fun h => hrest (hcons.1 h).2]

end Provisioner

end Roster
