import Roster.Proofs.LateRefusals
import Roster.Proofs.Lookups
import Roster.Proofs.Values
import Mathlib.Control.Monad.Basic

/-!
# Removing references in use

A removal of values is refused if it lists a reference that groups use. `removeValues_refuses_iff`
says exactly when that is so: the check compares the listed values with the stored ones as they are
spelled, while the directory deletes in any case and deletes a whole attribute for which no values
are listed. A used reference that a removal takes is therefore noticed only if it is listed in its
own spelling.
-/

namespace Roster

open Directory (Unwritten unwritten_frame)

namespace Provisioner

/-! ## The check -/

/-- The values listed for removal name, as the entry spells it, a reference that a group holds. -/
def ListsUsed (p : Provisioner) (e : Entry) (entries : Entries) (listed : Attributes)
    (kind : MembershipKind) : Prop :=
  ∃ name r, (p.descriptor kind).referenceAttribute? = some name ∧ r ∈ listed.values name ∧
    r ∈ e.attributes.values name ∧ (p.descriptor kind).InUse p.bases entries r

/-- The kinds whose references are values of the member. -/
def valueKinds : List MembershipKind :=
  [.posix, .mailAlias]

theorem mem_valueKinds {kind : MembershipKind} : kind ∈ valueKinds ↔ kind ≠ .static := by
  cases kind <;> decide

variable {p : Provisioner} {dn : Dn} {e : Entry} {entries : Entries}

/-- The memberships under listed references are there exactly if a listed reference is in use. -/
theorem exists_listed_membership {kind : MembershipKind} {name : String}
    (hvalue : (p.descriptor kind).reference = .valueOf name) (listed : Attributes) :
    (∃ m ∈ p.membershipsOf kind dn e entries,
        m.reference ∈ ((p.descriptor kind).referenceValues none listed).getD []) ↔
      p.ListsUsed e entries listed kind := by
  constructor
  · rintro ⟨m, hm, hlisted⟩
    have hstored := reference_of_mem_membershipsOf hm
    refine ⟨name, m.reference, KindDescriptor.referenceAttribute?_valueOf hvalue, ?_, ?_, ?_⟩
    · exact (KindDescriptor.mem_referenceValues_none hvalue).1 hlisted
    · exact (KindDescriptor.mem_referencesOf hvalue).1 hstored
    · exact (KindDescriptor.exists_reference_foundIn hvalue hstored).1 ⟨m, hm, rfl⟩
  · rintro ⟨name', r, hname, hlisted, hstored, huse⟩
    rw [KindDescriptor.referenceAttribute?_valueOf hvalue] at hname
    cases hname
    have hreference : r ∈ (p.referencesOf kind dn e).getD [] :=
      (KindDescriptor.mem_referencesOf hvalue).2 hstored
    obtain ⟨m, hm, rfl⟩ := (KindDescriptor.exists_reference_foundIn hvalue hreference).2 huse
    exact ⟨m, hm, (KindDescriptor.mem_referenceValues_none hvalue).2 hlisted⟩

theorem finds_refuseInUse (hstored : entries.get? dn = some e) {kind : MembershipKind}
    (hkind : kind ∈ valueKinds) (listed : Attributes) :
    Finds p dn e entries (fun _ => ¬ p.ListsUsed e entries listed kind)
      (fun err => p.ListsUsed e entries listed kind ∧ err.isReferentialIntegrity = true)
      (p.refuseInUse listed kind) := by
  obtain ⟨name, hvalue⟩ := p.exists_valueOf (mem_valueKinds.1 hkind)
  have hiff : (∃ m ∈ p.membershipsOf kind dn e entries,
      m.reference ∈ ((p.descriptor kind).referenceValues none listed).getD []) ↔
        p.ListsUsed e entries listed kind := exists_listed_membership hvalue listed
  unfold refuseInUse
  dsimp only
  generalize ((p.descriptor kind).referenceValues none listed).getD [] = removed at hiff ⊢
  split
  · refine Finds.bind (Finds.lookUp_byReferences (.stored hstored) kind removed) fun inUse hinUse => ?_
    subst hinUse
    split
    · next hsome =>
      refine Finds.throw ⟨hiff.1 ?_, rfl⟩
      rw [Bool.not_eq_true', List.isEmpty_eq_false_iff_exists_mem] at hsome
      obtain ⟨m, hm⟩ := hsome
      obtain ⟨hm, hlisted⟩ := List.mem_filter.1 hm
      exact ⟨m, hm, List.contains_iff_mem.1 hlisted⟩
    · next hnone =>
      refine Finds.pure fun hused => hnone ?_
      obtain ⟨m, hm, hlisted⟩ := hiff.2 hused
      rw [Bool.not_eq_true', List.isEmpty_eq_false_iff_exists_mem]
      exact ⟨m, List.mem_filter.2 ⟨hm, List.contains_iff_mem.2 hlisted⟩⟩
  · next hempty =>
    refine Finds.pure fun hused => hempty ?_
    obtain ⟨m, -, hlisted⟩ := hiff.2 hused
    rw [Bool.not_eq_true', List.isEmpty_eq_false_iff_exists_mem]
    exact ⟨_, hlisted⟩

/-- The memberships of the entry in the groups that are listed for a kind. -/
def membershipsIn (p : Provisioner) (requests : GroupRequests) (kind : MembershipKind) (dn : Dn)
    (e : Entry) (entries : Entries) : List GroupMembership :=
  (p.membershipsOf kind dn e entries).filter fun m => m.group.isIn (requests.get kind).groups

theorem mem_membershipsIn {requests : GroupRequests} {kind : MembershipKind} {m : GroupMembership} :
    m ∈ p.membershipsIn requests kind dn e entries ↔
      m ∈ p.membershipsOf kind dn e entries ∧ m.group.isIn (requests.get kind).groups = true :=
  List.mem_filter

theorem finds_membershipsIn {E : ProvisioningError → Prop} (hentry : entries.Reads dn e E)
    (requests : GroupRequests) (kind : MembershipKind) :
    Finds p dn e entries (· = (kind, p.membershipsIn requests kind dn e entries)) E
      (leaving requests kind) := by
  unfold leaving
  dsimp only
  split
  · next hgroups =>
    refine Finds.pure (congrArg (Prod.mk kind) (List.filter_eq_nil_iff.2 fun m _ => ?_).symm)
    rw [List.isEmpty_iff.1 hgroups]
    exact Bool.false_ne_true
  · refine Finds.bind (Finds.lookUp_byGroups hentry kind _) fun memberships hfound => ?_
    subst hfound
    exact Finds.pure rfl

/-- The memberships that end are those in the listed groups. -/
theorem finds_leaving {E : ProvisioningError → Prop} (hentry : entries.Reads dn e E)
    (requests : GroupRequests) (kind : MembershipKind) :
    Finds p dn e entries (fun leaving => leaving.1 = kind ∧ ∀ m ∈ leaving.2,
      (requests.get kind).isUntouched = false ∧ m ∈ p.membershipsOf kind dn e entries) E
      (leaving requests kind) := by
  refine (finds_membershipsIn hentry requests kind).mono ?_ fun _ h => h
  rintro _ rfl
  refine ⟨rfl, fun m hm => ?_⟩
  obtain ⟨hm, hin⟩ := mem_membershipsIn.1 hm
  refine ⟨GroupRequest.isUntouched_of_groups fun hnone => ?_, hm⟩
  rw [hnone] at hin
  cases hin

/-- Planning a removal fails exactly if a used reference is listed, and finds the memberships in the
listed groups otherwise. -/
theorem finds_planLeaving (hstored : entries.get? dn = some e) (input : Input) :
    Finds p dn e entries (fun ending =>
        (∀ kind ∈ valueKinds, ¬ p.ListsUsed e entries input.ordinary kind) ∧
          ending = valueKinds.map fun kind =>
            (kind, p.membershipsIn input.requests kind dn e entries))
      (fun err => (∃ kind ∈ valueKinds, p.ListsUsed e entries input.ordinary kind) ∧
        err.isReferentialIntegrity = true)
      (p.planLeaving input) := by
  have hrefuse (kind : MembershipKind) (hkind : kind ∈ valueKinds) :=
    (finds_refuseInUse (p := p) hstored hkind input.ordinary).mono (fun _ h => h)
      fun err h => (⟨⟨kind, hkind, h.1⟩, h.2⟩ :
        (∃ kind ∈ valueKinds, p.ListsUsed e entries input.ordinary kind) ∧
          err.isReferentialIntegrity = true)
  unfold planLeaving
  refine Finds.bind (S := fun _ =>
    ∀ kind ∈ valueKinds, ¬ p.ListsUsed e entries input.ordinary kind) ?_ fun _ hnone => ?_
  · refine Finds.bind (hrefuse .posix (by decide)) fun _ hposix => ?_
    refine Finds.bind (hrefuse .mailAlias (by decide)) fun _ halias => Finds.pure ?_
    intro kind hkind
    simp only [valueKinds, List.mem_cons, List.not_mem_nil, or_false] at hkind
    rcases hkind with rfl | rfl
    · exact hposix
    · exact halias
  · simp only [List.mapM_cons, List.mapM_nil, bind_assoc, pure_bind]
    refine Finds.bind (finds_membershipsIn (.stored hstored) input.requests .posix)
      fun _ hposix => ?_
    refine Finds.bind (finds_membershipsIn (.stored hstored) input.requests .mailAlias)
      fun _ halias => Finds.pure ⟨hnone, ?_⟩
    rw [hposix, halias]
    rfl

/-! ## The operation -/

/-- A password can be stored if it is text, or if it is hashed. -/
def CanStore (p : Provisioner) (password : Option Secret) : Prop :=
  ∀ secret, password = some secret → Password.hash? p.algorithm secret.octets [] ≠ none

/-- Whether a password can be stored does not depend on the salt. -/
theorem hash?_eq_none_iff (a : Algorithm) (octets salt : List UInt8) :
    Password.hash? a octets salt = none ↔ Password.hash? a octets [] = none := by
  unfold Password.hash?
  rw [Password.hashWithSalt?_eq_none_iff, Password.hashWithSalt?_eq_none_iff]

theorem ends_hashPassword_canStore (p : Provisioner) (password : Option Secret) :
    Ends (fun _ => p.CanStore password)
      (fun err => ¬ p.CanStore password ∧ err.isReferentialIntegrity = false)
      (p.hashPassword password) := by
  unfold hashPassword
  split
  · exact Ends.pure nofun
  · next secret =>
    refine Ends.bind Ends.get fun dir _ => ?_
    split
    · next stored hhash =>
      refine Ends.pure fun given hgiven hnone => ?_
      cases hgiven
      rw [(hash?_eq_none_iff _ _ _).2 hnone] at hhash
      cases hhash
    · next hhash =>
      refine Ends.throw ⟨fun hstore => hstore secret rfl ?_, rfl⟩
      exact (hash?_eq_none_iff _ _ _).1 hhash

/-- A failed operation reports a reference in use. -/
def RefusesInUse (result : Except ProvisioningError String) : Prop :=
  ∃ err, result = .error err ∧ err.isReferentialIntegrity = true

/-- The outcome of a removal from a stored entry, up to what it sends. -/
theorem removeValues_refusesInUse {p : Provisioner} {entryClass : EntryClass} {uid : String}
    {attributes : List InputAttribute} {dir : Directory} {dn : Dn} {e : Entry} {input : Input}
    (hresolve : (dir.run (p.resolve entryClass uid)).1 = .ok dn)
    (hstored : dir.entry? dn = some e) (hinput : Input.partition .values attributes = .ok input) :
    RefusesInUse (dir.run (p.removeValues entryClass uid attributes)).1 ↔
      p.CanStore input.password ∧
        ∃ kind ∈ valueKinds, p.ListsUsed e dir.entries input.ordinary kind := by
  have hfound := p.keeps_unwritten_resolve entryClass uid dir
  unfold removeValues
  rw [Directory.run_bind]
  cases hrun : dir.run (p.resolve entryClass uid) with
  | mk result found =>
    rw [hrun] at hresolve hfound
    cases hresolve
    dsimp only
    rw [hinput, Directory.run_bind]
    dsimp only [ofInput, Directory.run_pure]
    rw [Directory.run_bind]
    have hquiet := p.keeps_unwritten_hashPassword input.password found
    have hstore := p.ends_hashPassword_canStore input.password found
    cases hhash : found.run (p.hashPassword input.password) with
    | mk result hashed =>
      rw [hhash] at hquiet hstore
      cases result with
      | error err =>
        -- A password that cannot be stored is noticed before the references are.
        refine ⟨?_, fun h => absurd h.1 hstore.1⟩
        rintro ⟨_, heq, hrefuses⟩
        cases heq
        rw [hstore.2] at hrefuses
        cases hrefuses
      | ok stored =>
        have hentries : hashed.entries = dir.entries := hquiet.1.trans hfound.1
        have hplan := finds_planLeaving (p := p) hstored input hashed (p.caches dn) hentries
          (p.agree_caches dn e dir.entries)
        dsimp only
        rw [Directory.run_bind]
        cases hleaving : hashed.run ((p.planLeaving input).run (p.caches dn)) with
        | mk result planned =>
          rw [hleaving] at hplan
          cases result with
          | error err =>
            exact ⟨fun _ => ⟨hstore, hplan.1.1⟩, fun _ => ⟨err, rfl, hplan.1.2⟩⟩
          | ok ending =>
            constructor
            · rintro ⟨err, heq, hrefuses⟩
              have hnever := p.neverRefuses_sendRemoval dn uid input stored ending.1 planned
              dsimp only at heq
              rw [heq] at hnever
              simp only [ProvisioningError.isRefusal, hrefuses, Bool.or_true] at hnever
              cases hnever
            · rintro ⟨-, kind, hkind, hlisted⟩
              exact absurd hlisted (hplan.1.1 kind hkind)

/-- The removal of listed values takes a value of an attribute from an entry. -/
def Takes (dn : Dn) (e : Entry) (listed : Attributes) (name value : String) : Prop :=
  ∃ left, e.attributes.applyAll dn.text listed.deletions = .ok left ∧
    value ∈ e.attributes.values name ∧ value ∉ left.values name

/-- **A removal is refused exactly if it lists a used reference as the entry spells it.** A used
reference that is taken without being noticed is listed in another spelling, or its attribute is
listed without values. -/
theorem removeValues_refuses_iff (p : Provisioner) (entryClass : EntryClass) (uid : String)
    (attributes : List InputAttribute) (dir : Directory) (dn : Dn) (e : Entry) (input : Input)
    (hresolve : (dir.run (p.resolve entryClass uid)).1 = .ok dn)
    (hstored : dir.entry? dn = some e) (hinput : Input.partition .values attributes = .ok input) :
    (RefusesInUse (dir.run (p.removeValues entryClass uid attributes)).1 ∧
        dir.Unwritten (dir.run (p.removeValues entryClass uid attributes)).2 ↔
      p.CanStore input.password ∧
        ∃ kind ∈ valueKinds, p.ListsUsed e dir.entries input.ordinary kind) ∧
    ∀ kind ∈ valueKinds, ∀ name reference,
      (p.descriptor kind).referenceAttribute? = some name →
      Takes dn e input.ordinary name reference →
      (p.descriptor kind).InUse p.bases dir.entries reference →
        p.ListsUsed e dir.entries input.ordinary kind ∨ input.ordinary.get? name = some [] ∨
          ∃ v ∈ input.ordinary.values name, v ≠ reference ∧ Text.same v reference = true := by
  have hrefuses := removeValues_refusesInUse hresolve hstored hinput
  constructor
  · refine ⟨fun h => hrefuses.1 h.1, fun h => ?_⟩
    obtain ⟨err, hrun, hinUse⟩ := hrefuses.2 h
    refine ⟨⟨err, hrun, hinUse⟩, ?_⟩
    refine p.refusesUnwritten_removeValues entryClass uid attributes dir _ err
      (Directory.run_of_result hrun) ?_
    rw [ProvisioningError.isRefusal, hinUse, Bool.or_true]
  · rintro kind - name reference hname ⟨left, happly, hmem, hgone⟩ huse
    by_cases hwhole : input.ordinary.get? name = some []
    · exact .inr (.inl hwhole)
    by_cases hlisted : reference ∈ input.ordinary.values name
    · exact .inl ⟨name, reference, hname, hlisted, hmem, huse⟩
    -- Otherwise the value survives, unless another spelling of it is listed.
    refine .inr (.inr (Classical.byContradiction fun hnone => hgone ?_))
    refine Attributes.mem_values_applyAll_deletions happly hmem hwhole fun v hv hsame => ?_
    refine hnone ⟨v, hv, ?_, hsame⟩
    rintro rfl
    exact hlisted hv

end Provisioner

namespace Sample

/-- Listed in its own spelling the reference stays. -/
theorem remove_ann_refused :
    Provisioner.RefusesInUse (annInTeam.run
      (provisioner.removeValues .account "uid=ann,dc=x" [⟨"uid", [.text "ann"]⟩])).1 := by
  refine ((Provisioner.removeValues_refuses_iff provisioner .account "uid=ann,dc=x"
    [⟨"uid", [.text "ann"]⟩] annInTeam (name "uid" "ann")
    ⟨name "uid" "ann", .ofList [("uid", ["ann"])]⟩ { ordinary := .ofList [("uid", ["ann"])] }
    (by decide +kernel) (by decide +kernel) (by decide +kernel)).1.2 ⟨nofun, ?_⟩).1
  exact ⟨.posix, by decide, "uid", "ann", rfl, by decide +kernel, by decide +kernel,
    annInTeam_inUse⟩

/-- In capitals the directory takes the reference, and no one notices that it is in use. -/
theorem remove_capital_ann_accepted :
    Provisioner.Takes (name "uid" "ann") ⟨name "uid" "ann", .ofList [("uid", ["ann"])]⟩
        (.ofList [("uid", ["ANN"])]) "uid" "ann" ∧
      (provisioner.descriptor .posix).InUse provisioner.bases annInTeam.entries "ann" ∧
      (annInTeam.run
        (provisioner.removeValues .account "uid=ann,dc=x" [⟨"uid", [.text "ANN"]⟩])).1 =
          .ok "uid=ann,dc=x" := by
  refine ⟨⟨.empty, by decide +kernel, by decide +kernel, by decide +kernel⟩, annInTeam_inUse, ?_⟩
  decide +kernel

end Sample

end Roster
