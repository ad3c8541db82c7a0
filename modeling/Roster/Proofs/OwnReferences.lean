import Roster.Proofs.Maintenance
import Roster.Proofs.Removals
import Roster.Proofs.Stranding

/-!
# The references that operations write into groups

Every membership that an operation adds or removes is under a reference of its entry. This file says
so of the diffs and lists that operations work out before they send anything: the references are
those that the entry has, those that its new name holds, or values that the operation is given.
-/

namespace Roster

namespace KindDescriptor

variable {d : KindDescriptor} {dn : Dn} {attrs : Attributes} {r : String}

/-- The references of an entry with a name are values in the name or among the attributes. -/
theorem mem_referenceValues_some {name : String} (h : d.reference = .valueOf name) :
    r ∈ (d.referenceValues (some dn) attrs).getD [] ↔
      r ∈ dn.leafValues name ∨ r ∈ attrs.values name := by
  unfold referenceValues
  simp only [h]
  cases hget : attrs.get? name with
  | none =>
    have hvalues : attrs.values name = [] := by rw [Attributes.values, hget, Option.getD_none]
    rw [hvalues]
    cases dn.leafValues name <;> simp
  | some values =>
    have hvalues : attrs.values name = values := by rw [Attributes.values, hget, Option.getD_some]
    rw [hvalues]
    simp [OrderedSet.mem_insertAll]

theorem mem_referenceValues_of_none (h : r ∈ (d.referenceValues none attrs).getD []) (dn : Dn) :
    r ∈ (d.referenceValues (some dn) attrs).getD [] := by
  cases hreference : d.reference with
  | name => simp [referenceValues, hreference] at h
  | valueOf name =>
    rw [mem_referenceValues_some hreference]
    exact .inr ((mem_referenceValues_none hreference).1 h)

/-- A reference is among the attributes, or it is in the name and a reference under any attributes.
-/
theorem mem_referenceValues_split (h : r ∈ (d.referenceValues (some dn) attrs).getD [])
    (other : Attributes) :
    r ∈ (d.referenceValues (some dn) other).getD [] ∨ r ∈ (d.referenceValues none attrs).getD [] := by
  cases hreference : d.reference with
  | name =>
    simp only [referenceValues, hreference] at h ⊢
    exact .inl h
  | valueOf name =>
    rw [mem_referenceValues_some hreference] at h
    rw [mem_referenceValues_some hreference, mem_referenceValues_none hreference]
    exact h.imp_left .inl

/-- The references of a stored entry are among those under its name. -/
theorem mem_referenceValues_of_referencesOf {e : Entry}
    (h : r ∈ (d.referencesOf dn e).getD []) :
    r ∈ (d.referenceValues (some dn) e.attributes).getD [] := by
  cases hreference : d.reference with
  | name =>
    simp only [referencesOf, referenceValues, hreference] at h ⊢
    exact h
  | valueOf name =>
    rw [referencesOf_valueOf hreference] at h
    exact mem_referenceValues_of_none h dn

end KindDescriptor

theorem mem_of_canonicalReference? {references : List String} {r : String}
    (h : canonicalReference? references = some r) : r ∈ references :=
  (Text.least_of_least? h).1

/-- The reference that is written is the least one. -/
theorem least_of_canonicalReference? {references : Option (List String)} {reference : String}
    (h : references.bind canonicalReference? = some reference) :
    Text.Least reference (references.getD []) := by
  cases references with
  | none => cases h
  | some known => exact Text.least_of_least? h

namespace Provisioner

variable {p : Provisioner} {dn : Dn} {e : Entry} {entries : Entries} {kind : MembershipKind}
  {m : GroupMembership}

theorem reference_of_bind {references : Option (List String)} {r : String}
    (h : references.bind canonicalReference? = some r) : r ∈ references.getD [] := by
  cases references with
  | none => cases h
  | some new => exact mem_of_canonicalReference? h

/-- What is required is the least of the references. -/
theorem ends_requireCanonical_least (p : Provisioner) (kind : MembershipKind) (dn : Dn)
    (references : Option (List String)) :
    Ends (fun reference => references.bind canonicalReference? = some reference) (fun _ => True)
      (p.requireCanonical kind dn references) := by
  unfold requireCanonical
  split
  · next h => exact Ends.pure h
  · exact Ends.throw trivial

theorem ends_requireCanonical_mem (p : Provisioner) (kind : MembershipKind) (dn : Dn)
    (references : Option (List String)) {E : ProvisioningError → Prop} (hE : ∀ err, E err) :
    Ends (fun reference => reference ∈ references.getD []) E
      (p.requireCanonical kind dn references) :=
  (p.ends_requireCanonical_least kind dn references).mono (fun _ h => reference_of_bind h)
    fun _ _ => hE _

/-! ## Updates -/

/-- What is planned for value kinds is about references that the entry has or will have. -/
theorem PlansReferences.reference_mem {renamed : Bool} {references : Option (List String)}
    {request : GroupRequest} {plan : ReferencePlan}
    (h : PlansReferences p kind dn e entries renamed references request plan)
    (hm : m ∈ plan.diff.removed ∨ m ∈ plan.diff.added) :
    m.reference ∈ (p.referencesOf kind dn e).getD [] ∨ m.reference ∈ references.getD [] := by
  have hmoved {reference : String} {stale : List GroupMembership}
      (hfollows : p.Follows kind dn e entries references reference stale) :
      (∀ m ∈ (moveTo reference stale).removed, m ∈ p.membershipsOf kind dn e entries) ∧
        ∀ m ∈ (moveTo reference stale).added, m.reference ∈ references.getD [] := by
    refine ⟨fun m hm => hfollows.mem (OrderedSet.mem_of_mem_insertAll_nil hm), fun m hm => ?_⟩
    obtain ⟨old, hold, rfl⟩ := List.mem_map.1 (OrderedSet.mem_of_mem_insertAll_nil hm)
    obtain ⟨new, rfl, hleast, -⟩ := hfollows.known (List.ne_nil_of_mem hold)
    exact mem_of_canonicalReference? hleast
  cases h with
  | follow reference stale huntouched hfollows =>
    obtain ⟨hremoved, hadded⟩ := hmoved hfollows
    exact hm.imp (fun hm => reference_of_mem_membershipsOf (hremoved m hm)) (hadded m)
  | replace reference stale plan hasked hfollows hlisted =>
    have hremoved : ∀ m ∈ (((moveTo reference stale).removeAll
        (p.membershipsOf kind dn e entries)).clearAdded).removed,
        m.reference ∈ (p.referencesOf kind dn e).getD [] := by
      intro m hm
      have hthere : m ∈ p.membershipsOf kind dn e entries :=
        (OrderedSet.mem_of_mem_insertAll hm).elim ((hmoved hfollows).1 m) fun hm => hm
      exact reference_of_mem_membershipsOf hthere
    cases hlisted with
    | nothing | later => exact hm.elim (fun hm => .inl (hremoved m hm)) nofun
    | now least hne hleast =>
      rcases hm with hm | hm
      · exact .inl (hremoved m hm)
      · obtain ⟨group, -, rfl⟩ := List.mem_map.1 (OrderedSet.mem_of_mem_insertAll_nil hm)
        have hmem := reference_of_bind hleast
        cases references with
        | none => exact .inl hmem
        | some new => exact .inr hmem

/-- If nothing is asked for a kind, its plan changes memberships only to make them follow. -/
theorem OnlyFollows.maintained {references : Option (List String)} {request : GroupRequest}
    {plan : ReferencePlan} (h : p.OnlyFollows kind dn e entries references request plan)
    (hchanges : (∃ m, m ∈ plan.diff.removed ∨ m ∈ plan.diff.added) ∨ plan.deferred ≠ []) :
    request.isUntouched = false ∨
      (p.descriptor kind).maintained = true ∧ references.isSome = true := by
  by_cases huntouched : request.isUntouched = true
  · right
    obtain ⟨diff, rfl, reference, rfl, -⟩ := h huntouched
    rcases hchanges with ⟨m, hm⟩ | hdeferred
    · obtain ⟨old, hold, -⟩ := exists_group_of_mem_moveTo hm
      unfold followers at hold
      split at hold
      · split at hold
        · next hmaintained => exact ⟨hmaintained, rfl⟩
        · cases hold
      · cases hold
    · exact absurd rfl hdeferred
  · exact .inl (Bool.not_eq_true _ ▸ huntouched)

/-- References are planned if the entry is renamed or references are supplied. -/
theorem isSome_plannedReferences {input : Input}
    (h : (p.plannedReferences dn input kind).isSome = true) :
    (renameFor? dn input.name).isSome = true ∨
      ∃ name, (p.descriptor kind).reference = .valueOf name ∧
        input.ordinary.contains name = true := by
  cases hreference : (p.descriptor kind).reference with
  | name =>
    simp [plannedReferences, newReferences, KindDescriptor.referenceAttribute?, hreference] at h
  | valueOf name =>
    cases hget : input.ordinary.get? name with
    | none =>
      rw [plannedReferences_of_absent hreference hget] at h
      split at h
      · next hrenamed => exact .inl hrenamed.1
      · cases h
    | some values => exact .inr ⟨name, rfl, by rw [Attributes.contains, hget]; rfl⟩

/-- The leaf of the name at which a move puts an entry is the one that is asked for. -/
theorem leafValues_landing (dn : Dn) (asked : Option Dn) (name : String) :
    (landing dn (renameFor? dn asked)).leafValues name =
      (targetOf dn (renameFor? dn asked)).leafValues name := by
  cases hrename : renameFor? dn asked with
  | none => rfl
  | some r =>
    unfold Dn.leafValues
    rw [targetOf, leaf?_of_renameFor? hrename]
    rfl

/-- The planned references are values in the name after the move, or they are supplied. -/
theorem mem_plannedReferences {input : Input} {r : String}
    (h : r ∈ (p.plannedReferences dn input kind).getD []) (attrs : Attributes) :
    r ∈ ((p.descriptor kind).referenceValues
        (some (landing dn (renameFor? dn input.name))) attrs).getD [] ∨
      r ∈ ((p.descriptor kind).referenceValues none input.ordinary).getD [] := by
  cases hreference : (p.descriptor kind).reference with
  | name =>
    simp [plannedReferences, newReferences, KindDescriptor.referenceAttribute?, hreference] at h
  | valueOf name =>
    rw [KindDescriptor.mem_referenceValues_some hreference,
      KindDescriptor.mem_referenceValues_none hreference, leafValues_landing]
    cases hget : input.ordinary.get? name with
    | none =>
      rw [plannedReferences_of_absent hreference hget] at h
      split at h
      · exact .inl (.inl h)
      · cases h
    | some values =>
      have hvalues : input.ordinary.values name = values := by
        rw [Attributes.values, hget, Option.getD_some]
      rw [plannedReferences_of_listed hreference hget, Option.getD_some,
        OrderedSet.mem_insertAll] at h
      rw [hvalues]
      exact h.imp_left .inl

/-- The static memberships that an update removes were there, and those that it adds are under the
name after the move. -/
theorem mem_staticDiff {plan : UpdatePlan} {landed : Dn} :
    (m ∈ (staticDiff plan landed).removed → m ∈ plan.existing) ∧
      (m ∈ (staticDiff plan landed).added → m.reference = landed.text) := by
  have hfollow : (m ∈ (followMove plan.existing landed).removed → m ∈ plan.existing) ∧
      (m ∈ (followMove plan.existing landed).added → m.reference = landed.text) := by
    refine ⟨fun hm => OrderedSet.mem_of_mem_insertAll_nil hm, fun hm => ?_⟩
    obtain ⟨old, -, rfl⟩ := List.mem_map.1 (OrderedSet.mem_of_mem_insertAll_nil hm)
    rfl
  have hbase : (m ∈ (if plan.followRename then followMove plan.existing landed else {}).removed →
      m ∈ plan.existing) ∧
      (m ∈ (if plan.followRename then followMove plan.existing landed else {}).added →
        m.reference = landed.text) := by
    split
    · exact hfollow
    · exact ⟨nofun, nofun⟩
  unfold staticDiff
  dsimp only
  split
  · exact hbase
  · constructor
    · intro hm
      exact (OrderedSet.mem_of_mem_insertAll hm).elim hbase.1 fun hm => hm
    · intro hm
      obtain ⟨group, -, rfl⟩ := List.mem_map.1 (OrderedSet.mem_of_mem_insertAll_nil hm)
      rfl

/-- Static memberships change only if they follow a move or groups are listed for them. -/
theorem staticDiff_of_untouched {plan : UpdatePlan} (landed : Dn) (hfollow : plan.followRename = false)
    (huntouched : plan.static.isUntouched = true) : staticDiff plan landed = {} := by
  rw [staticDiff, hfollow, huntouched]
  rfl

/-! ## New entries and removals -/

/-- A new entry joins listed groups under a reference that its name or its attributes hold. -/
theorem ends_joining (p : Provisioner) (dn : Dn) (attrs : Attributes) (requests : GroupRequests)
    (kind : MembershipKind) {E : ProvisioningError → Prop} (hE : ∀ err, E err) :
    Ends (fun diff => ∀ m, m ∈ diff.removed ∨ m ∈ diff.added →
      (requests.get kind).isUntouched = false ∧
        m.reference ∈ ((p.descriptor kind).referenceValues (some dn) attrs).getD []) E
      (p.joining dn attrs requests kind) := by
  unfold joining
  dsimp only
  split
  · exact Ends.pure fun m hm => hm.elim nofun nofun
  · next hgroups =>
    have hne : (requests.get kind).groups ≠ [] := fun h => hgroups (List.isEmpty_iff.2 h)
    refine Ends.bind (p.ends_requireCanonical_mem kind dn _ hE) fun reference href => ?_
    refine Ends.pure fun m hm => ⟨GroupRequest.isUntouched_of_groups hne, ?_⟩
    rcases hm with hm | hm
    · cases hm
    · obtain ⟨group, -, rfl⟩ := List.mem_map.1 (OrderedSet.mem_of_mem_insertAll_nil hm)
      exact href

theorem ends_joinings (p : Provisioner) (dn : Dn) (attrs : Attributes) (requests : GroupRequests)
    {E : ProvisioningError → Prop} (hE : ∀ err, E err) :
    Ends (fun diffs => ∀ joins ∈ diffs, ∀ m, m ∈ joins.2.removed ∨ m ∈ joins.2.added →
      (requests.get joins.1).isUntouched = false ∧
        m.reference ∈ ((p.descriptor joins.1).referenceValues (some dn) attrs).getD []) E
      (MembershipKind.all.mapM fun kind => do
        return (kind, ← p.joining dn attrs requests kind)) := by
  have hjoin (kind : MembershipKind) :
      Ends (fun joins : MembershipKind × Diff GroupMembership => joins.1 = kind ∧
        ∀ m, m ∈ joins.2.removed ∨ m ∈ joins.2.added → (requests.get kind).isUntouched = false ∧
          m.reference ∈ ((p.descriptor kind).referenceValues (some dn) attrs).getD []) E
        (do return (kind, ← p.joining dn attrs requests kind)) :=
    Ends.bind (p.ends_joining dn attrs requests kind hE) fun diff hdiff => Ends.pure ⟨rfl, hdiff⟩
  refine (Ends.mapM_mem fun kind _ => hjoin kind).mono (fun diffs h joins hjoins => ?_) fun _ h => h
  obtain ⟨kind, -, rfl, hdiff⟩ := h joins hjoins
  exact hdiff

variable {E : ProvisioningError → Prop}

/-- The memberships that a removal of values ends are memberships of the entry in listed groups. -/
theorem finds_planLeaving_memberships (hentry : entries.Reads dn e E) (hE : ∀ err, E err)
    (input : Input) :
    Finds p dn e entries (fun ending => ∀ leaving ∈ ending, ∀ m ∈ leaving.2,
      (input.requests.get leaving.1).isUntouched = false ∧
        m ∈ p.membershipsOf leaving.1 dn e entries) E
      (p.planLeaving input) := by
  have hrefuse (kind : MembershipKind) :
      Finds p dn e entries (fun _ => True) E (p.refuseInUse input.ordinary kind) := by
    unfold refuseInUse
    dsimp only
    split
    · refine Finds.bind (Finds.lookUp_byReferences hentry kind _) fun inUse _ => ?_
      split
      · exact Finds.throw (hE _)
      · exact Finds.pure trivial
    · exact Finds.pure trivial
  unfold planLeaving
  refine Finds.bind (S := fun _ => True) ?_ fun _ _ => ?_
  · refine Finds.bind (hrefuse .posix) fun _ _ => ?_
    exact Finds.bind (hrefuse .mailAlias) fun _ _ => Finds.pure trivial
  · simp only [List.mapM_cons, List.mapM_nil, bind_assoc, pure_bind]
    refine Finds.bind (finds_leaving hentry input.requests .posix) fun posix hposix => ?_
    refine Finds.bind (finds_leaving hentry input.requests .mailAlias)
      fun mailAlias halias => Finds.pure ?_
    intro leaving hleaving m hm
    rcases List.mem_pair.1 hleaving with rfl | rfl
    · rw [hposix.1]
      exact hposix.2 m hm
    · rw [halias.1]
      exact halias.2 m hm

end Provisioner

end Roster
