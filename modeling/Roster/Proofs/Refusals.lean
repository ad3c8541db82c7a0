import Roster.Proofs.Operations
import Mathlib.Control.Monad.Basic

/-!
# Refusals and what was written before them

An operation refuses its input by a validation error, and a removal that would leave memberships
behind by an error of its own. This file settles when such a refusal comes after a write. The plan of
an update and the checks of a removal come first, so almost every refusal leaves the directory as it
was; the exception is a reference that is only looked for when the operation has begun to write
(`NoticesLate`): the reference of a renamed entry, or of an entry that just received values.
-/

namespace Roster

open Directory (Unwritten Logged unwritten_frame logged_frame)

variable {α : Type}

/-! ## Refusals -/

/-- Whether an operation refuses what it is asked, as opposed to a failure of the directory. -/
def ProvisioningError.isRefusal (e : ProvisioningError) : Bool :=
  e.isValidation || e.isReferentialIntegrity

/-- The kind of groups for which a reference of the entry is missing. -/
def ProvisioningError.missingKind? : ProvisioningError → Option MembershipKind
  | .validation (.missingReference kind _ _) => some kind
  | _ => none

/-- The computation does not refuse anything. -/
def NeverRefuses (x : Provisioner.Action α) : Prop :=
  Ends (fun _ => True) (fun e => e.isRefusal = false) x

theorem neverRefuses_lift (x : Directory.Action α) :
    NeverRefuses (liftM x : Provisioner.Action α) :=
  ends_lift x fun _ => rfl

namespace Provisioner

theorem neverRefuses_resolve (p : Provisioner) (entryClass : EntryClass) (uid : String) :
    NeverRefuses (p.resolve entryClass uid) := by
  unfold resolve
  split
  · split
    · exact Ends.pure trivial
    · exact Ends.throw rfl
  · refine Ends.bind (Ends.mapM fun base _ => neverRefuses_lift _) fun found _ => ?_
    split
    · exact Ends.pure trivial
    · exact Ends.throw rfl

theorem neverRefuses_identify (p : Provisioner) (entryClass : EntryClass) (dn : Dn) :
    NeverRefuses (p.identify entryClass dn) := by
  unfold identify
  split
  · exact Ends.pure trivial
  · refine Ends.bind (neverRefuses_lift _) fun found _ => ?_
    cases found with
    | none => exact Ends.throw rfl
    | some e =>
      dsimp only
      split
      · exact Ends.pure trivial
      · exact Ends.throw rfl

theorem neverRefuses_sendItems (p : Provisioner) (dn : Dn) (items : List Modification) :
    NeverRefuses (p.sendItems dn items) := by
  unfold sendItems
  split
  · exact Ends.pure trivial
  · exact neverRefuses_lift _

theorem neverRefuses_writePassword (p : Provisioner) (dn : Dn) (op : ModifyOp)
    (stored : Option String) : NeverRefuses (p.writePassword dn op stored) := by
  unfold writePassword
  split
  · exact Ends.pure trivial
  · exact neverRefuses_lift _

theorem neverRefuses_move (p : Provisioner) (dn : Dn) (rename : Option Rename) :
    NeverRefuses (p.move dn rename) := by
  unfold move
  split
  · exact neverRefuses_lift _
  · exact Ends.pure trivial

/-- A missing reference is of the kind for which it was required. -/
theorem ends_requireCanonical (p : Provisioner) (kind : MembershipKind) (dn : Dn)
    (references : Option (List String)) :
    Ends (fun _ => True) (fun e => e.missingKind? = some kind)
      (p.requireCanonical kind dn references) := by
  unfold requireCanonical
  split
  · exact Ends.pure trivial
  · exact Ends.throw rfl

theorem ends_choosePassword (p : Provisioner) (input : Input) :
    Ends (fun chosen => chosen.isSome = true ↔
        input.resetPassword = true ∨ input.password.isSome = true)
      (fun _ => False) (p.choosePassword input) := by
  unfold choosePassword
  split
  · next hreset => exact Ends.bind Ends.get fun _ _ => Ends.pure ⟨fun _ => .inl hreset, fun _ => rfl⟩
  · next hreset => exact Ends.pure ⟨.inr, fun h => h.resolve_left hreset⟩

theorem ends_hashPassword (p : Provisioner) (password : Option Secret) :
    Ends (fun stored => stored.isSome = password.isSome) (fun e => e = .validation .nonUtf8Password)
      (p.hashPassword password) := by
  unfold hashPassword
  split
  · exact Ends.pure rfl
  · refine Ends.bind Ends.get fun _ _ => ?_
    split
    · exact Ends.pure rfl
    · exact Ends.throw rfl

/-! ## Where an update can still refuse -/

/-- The references of a kind are only known when the entry has been renamed, and groups of the kind
wait for them. -/
def Defers (p : Provisioner) (dn : Dn) (input : Input) (kind : MembershipKind) : Prop :=
  (renameFor? dn input.name).isSome = true ∧
    newReferences (p.descriptor kind) true (targetOf dn (renameFor? dn input.name))
      input.ordinary = none ∧
    ((p.applyStatus input).2.get kind).groups ≠ []

theorem ends_moveStale (p : Provisioner) (kind : MembershipKind) (target : Dn)
    (references : List String) (caches : Caches) :
    Ends (fun _ => True) (fun e => ∀ k, e.missingKind? = some k → k = kind)
      ((p.moveStale kind target references).run caches) := by
  unfold moveStale
  simp only [StateT.run_bind]
  refine Ends.bind (ends_lookUp kind _ _ fun e k hk => by cases hk) fun old _ => ?_
  refine Ends.bind (ends_lookUp kind _ _ fun e k hk => by cases hk) fun stale _ => ?_
  split
  · exact Ends.pure trivial
  · rw [StateT.run_bind]
    refine Ends.bind (S := fun _ => True) ?_ fun _ _ => Ends.pure trivial
    refine ((p.ends_requireCanonical kind target _).cached_lift _).mono (fun _ _ => trivial) ?_
    intro e he k hk
    exact Option.some.inj (hk.symm.trans he)

theorem ends_followReferences (p : Provisioner) (kind : MembershipKind) (target : Dn)
    (references : Option (List String)) (caches : Caches) :
    Ends (fun _ => True) (fun e => ∀ k, e.missingKind? = some k → k = kind ∧ references ≠ none)
      ((p.followReferences kind target references).run caches) := by
  unfold followReferences
  split
  · split
    · refine (p.ends_moveStale kind target _ caches).mono (fun _ _ => trivial) ?_
      exact fun e he k hk => ⟨he k hk, Option.some_ne_none _⟩
    · exact Ends.pure trivial
  · exact Ends.pure trivial

/-- Listed groups wait only for references that a rename leaves open, and then nothing is missing
yet. -/
theorem ends_planListed (p : Provisioner) (kind : MembershipKind) (target : Dn) (renamed : Bool)
    (references : Option (List String)) (groups : List Dn) (diff : Diff GroupMembership)
    (caches : Caches) :
    Ends (fun found => found.1.kind = kind ∧
        (found.1.deferred ≠ [] → renamed = true ∧ references = none ∧ groups ≠ []))
      (fun e => ∀ k, e.missingKind? = some k →
        k = kind ∧ ¬ (renamed = true ∧ references = none ∧ groups ≠ []))
      ((p.planListed kind target renamed references groups diff).run caches) := by
  unfold planListed
  split
  · exact Ends.pure ⟨rfl, fun h => absurd rfl h⟩
  · next hgroups =>
    have hne : groups ≠ [] := fun h => hgroups (by rw [h]; rfl)
    split
    · next hdefer =>
      rw [Bool.and_eq_true, Option.isNone_iff_eq_none] at hdefer
      exact Ends.pure ⟨rfl, fun _ => ⟨hdefer.2, hdefer.1, hne⟩⟩
    · next hdefer =>
      have hnot : ¬ (renamed = true ∧ references = none ∧ groups ≠ []) := by
        rintro ⟨rfl, rfl, -⟩
        exact hdefer rfl
      simp only [StateT.run_bind]
      refine Ends.bind (S := fun _ => True) ?_ fun known _ => ?_
      · unfold comingReferences
        split
        · exact Ends.pure trivial
        · exact ends_lookUp kind _ _ fun e k hk => by cases hk
      refine Ends.bind (S := fun _ => True) ?_ fun _ _ => Ends.pure ⟨rfl, fun h => absurd rfl h⟩
      refine ((p.ends_requireCanonical kind target _).cached_lift _).mono (fun _ _ => trivial) ?_
      intro e he k hk
      exact ⟨Option.some.inj (hk.symm.trans he), hnot⟩

theorem ends_planReferences (p : Provisioner) (target : Dn) (renamed : Bool)
    (request : GroupRequest) (kind : MembershipKind) (references : Option (List String))
    (caches : Caches) :
    Ends (fun found => found.1.kind = kind ∧
        (found.1.deferred ≠ [] → renamed = true ∧ references = none ∧ request.groups ≠ []))
      (fun e => ∀ k, e.missingKind? = some k →
        k = kind ∧ ¬ (renamed = true ∧ references = none ∧ request.groups ≠ []))
      ((p.planReferences target renamed request kind references).run caches) := by
  unfold planReferences
  rw [StateT.run_bind]
  refine Ends.bind (S := fun _ => True) ?_ fun diff _ => ?_
  · refine (p.ends_followReferences kind target references caches).mono (fun _ _ => trivial) ?_
    intro e he k hk
    exact ⟨(he k hk).1, fun h => (he k hk).2 h.2.1⟩
  split
  · exact Ends.pure ⟨rfl, fun h => absurd rfl h⟩
  · rw [StateT.run_bind]
    refine Ends.bind (ends_lookUp kind _ _ fun e k hk => by cases hk) fun existing _ => ?_
    exact p.ends_planListed kind target renamed references request.groups _ _

/-- A plan defers groups of a kind only if the kind `Defers`, and planning itself does not fail for
want of a reference of such a kind. -/
theorem ends_planUpdate (p : Provisioner) (dn : Dn) (input : Input) (caches : Caches) :
    Ends (fun found => found.1.rename = renameFor? dn input.name ∧
        ∀ plan ∈ found.1.references, plan.deferred ≠ [] → p.Defers dn input plan.kind)
      (fun e => ∀ k, e.missingKind? = some k → ¬ p.Defers dn input k)
      ((p.planUpdate dn input).run caches) := by
  have hplan (kind : MembershipKind) (caches : Caches) :
      Ends (fun found => found.1.deferred ≠ [] → p.Defers dn input found.1.kind)
        (fun e => ∀ k, e.missingKind? = some k → ¬ p.Defers dn input k)
        ((p.planReferences (targetOf dn (renameFor? dn input.name))
          (renameFor? dn input.name).isSome ((p.applyStatus input).2.get kind) kind
          (newReferences (p.descriptor kind) (renameFor? dn input.name).isSome
            (targetOf dn (renameFor? dn input.name)) input.ordinary)).run caches) := by
    refine (p.ends_planReferences _ _ _ kind _ caches).mono ?_ ?_
    · rintro found ⟨hkind, hdeferred⟩ hne
      obtain ⟨hrenamed, hnone, hgroups⟩ := hdeferred hne
      rw [hrenamed] at hnone
      rw [hkind]
      exact ⟨hrenamed, hnone, hgroups⟩
    · rintro e he k hk ⟨hrenamed, hnone, hgroups⟩
      obtain ⟨rfl, hnot⟩ := he k hk
      exact hnot ⟨hrenamed, by rw [hrenamed]; exact hnone, hgroups⟩
  have hrefuse (kind : MembershipKind) (references : Option (List String)) (caches : Caches) :
      Ends (fun _ => True) (fun e => ∀ k, e.missingKind? = some k → ¬ p.Defers dn input k)
        ((p.refuseOrphans kind references).run caches) := by
    unfold refuseOrphans
    split
    · rw [StateT.run_bind]
      refine Ends.bind (ends_lookUp kind _ _ fun e k hk => by cases hk) fun found _ => ?_
      split
      · exact Ends.throw fun k hk => by cases hk
      · exact Ends.pure trivial
    · exact Ends.pure trivial
  unfold planUpdate
  simp only [StateT.run_bind]
  refine Ends.bind (hrefuse .posix _ _) fun _ _ => ?_
  refine Ends.bind (hrefuse .mailAlias _ _) fun _ _ => ?_
  refine Ends.bind (S := fun _ => True) ?_ fun chosen _ => ?_
  · exact ((p.ends_choosePassword input).cached_lift _).mono (fun _ _ => trivial)
      fun _ h => h.elim
  refine Ends.bind (S := fun _ => True) ?_ fun stored _ => ?_
  · refine ((p.ends_hashPassword chosen.1).cached_lift _).mono (fun _ _ => trivial) ?_
    rintro e rfl k hk
    cases hk
  refine Ends.bind (S := fun _ => True) ?_ fun _ _ => ?_
  · unfold loadStatic
    split
    · exact ends_lookUp .static _ _ fun e k hk => by cases hk
    · exact Ends.pure trivial
  simp only [List.mapM_cons, List.mapM_nil, StateT.run_bind]
  refine Ends.bind (S := fun found => ∀ plan ∈ found.1,
    plan.deferred ≠ [] → p.Defers dn input plan.kind) ?_ fun plans hplans =>
      Ends.pure ⟨rfl, hplans⟩
  refine Ends.bind (hplan .posix _) fun first hfirst => ?_
  refine Ends.bind (S := fun found => ∀ plan ∈ found.1,
    plan.deferred ≠ [] → p.Defers dn input plan.kind) ?_ fun rest hrest => ?_
  · refine Ends.bind (hplan .mailAlias _) fun second hsecond => Ends.pure ?_
    simpa using hsecond
  · refine Ends.pure fun plan hmem => ?_
    rcases List.mem_cons.1 hmem with rfl | hmem
    · exact hfirst
    · exact hrest plan hmem

/-- What never refuses does not refuse for want of a reference for which groups wait. -/
theorem ends_refusal_of_never {x : Action α} (h : NeverRefuses x) (plan : UpdatePlan) :
    Ends (fun _ => True) (fun e => e.isRefusal = true →
      ∃ r ∈ plan.references, r.deferred ≠ [] ∧ e.missingKind? = some r.kind) x := by
  refine h.mono (fun _ _ => trivial) fun e he hrefusal => ?_
  rw [he] at hrefusal
  cases hrefusal

/-- What an update sends refuses only for want of a reference for which groups waited. -/
theorem ends_settle (p : Provisioner) (plan : UpdatePlan) (dn : Dn) :
    Ends (fun _ => True)
      (fun e => e.isRefusal = true →
        ∃ r ∈ plan.references, r.deferred ≠ [] ∧ e.missingKind? = some r.kind)
      (p.settle plan dn) := by
  unfold settle
  refine Ends.bind (ends_refusal_of_never (p.neverRefuses_sendItems _ _) plan) fun _ _ => ?_
  refine Ends.bind (ends_refusal_of_never (neverRefuses_lift _) plan) fun _ _ => ?_
  refine Ends.bind (Ends.forM fun r hr => ?_) fun _ _ =>
    ends_refusal_of_never (p.neverRefuses_writePassword _ _ _) plan
  unfold applyReferences
  dsimp only
  split
  · exact ends_refusal_of_never (neverRefuses_lift _) plan
  · next hdeferred =>
    have hne : r.deferred ≠ [] := fun h => hdeferred (by rw [h]; rfl)
    refine Ends.bind (ends_refusal_of_never (neverRefuses_lift _) plan) fun found _ => ?_
    refine Ends.bind (S := fun _ => True) ?_ fun _ _ =>
      ends_refusal_of_never (neverRefuses_lift _) plan
    refine (p.ends_requireCanonical r.kind dn found).mono (fun _ _ => trivial) ?_
    exact fun e he _ => ⟨r, hr, hne, he⟩

theorem ends_carryOut (p : Provisioner) (plan : UpdatePlan) :
    Ends (fun _ => True)
      (fun e => e.isRefusal = true →
        ∃ r ∈ plan.references, r.deferred ≠ [] ∧ e.missingKind? = some r.kind)
      (p.carryOut plan) := by
  unfold carryOut
  refine Ends.bind (ends_refusal_of_never (p.neverRefuses_sendItems _ _) plan) fun _ _ => ?_
  refine Ends.bind (ends_refusal_of_never (p.neverRefuses_move _ _) plan) fun moved _ => ?_
  exact Ends.bind (p.ends_settle plan _) fun _ _ => Ends.pure trivial

/-- What a removal of values sends refuses nothing. -/
theorem neverRefuses_sendRemoval (p : Provisioner) (dn : Dn) (uid : String) (input : Input)
    (stored : Option String) (ending : List (MembershipKind × List GroupMembership)) :
    NeverRefuses (do
      p.modifyValues dn .delete input.ordinary
      p.writePassword dn .delete stored
      let static := (input.requests.static.groups).map fun group => ⟨dn.text, group⟩
      (p.descriptor .static).removeMemberships p.supply static
      ending.forM fun (kind, memberships) =>
        (p.descriptor kind).removeMemberships p.supply memberships
      return uid : Action String) := by
  refine Ends.bind (p.neverRefuses_sendItems dn _) fun _ _ => ?_
  refine Ends.bind (p.neverRefuses_writePassword dn _ _) fun _ _ => ?_
  refine Ends.bind (neverRefuses_lift _) fun _ _ => ?_
  exact Ends.bind (Ends.forM fun item _ => neverRefuses_lift _) fun _ _ => Ends.pure trivial

end Provisioner

end Roster
