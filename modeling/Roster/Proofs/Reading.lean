import Roster.Proofs.Requests

/-!
# Which parts of the operations only read

An operation resolves an identifier, checks its input and looks memberships up before it sends
anything that changes an entry; `keeps_unwritten_planUpdate` and `keeps_unwritten_planLeaving`
collect these parts. What comes after them is logged.
-/

namespace Roster

open Directory (Unwritten Logged unwritten_frame logged_frame)

/-! ## Look-ups of memberships -/

namespace KindDescriptor

theorem keeps_unwritten_readReferenceValues (d : KindDescriptor) (dn : Dn) :
    Keeps Unwritten (d.readReferenceValues dn) := by
  unfold readReferenceValues
  split
  · exact unwritten_frame.keeps_pure _
  · refine unwritten_frame.keeps_bind (Directory.keeps_unwritten_read dn _) fun found => ?_
    cases found with
    | none => exact unwritten_frame.keeps_throw _
    | some e => exact unwritten_frame.keeps_pure _

theorem keeps_unwritten_findMemberships (d : KindDescriptor) (bases : List Dn)
    (references : List String) : Keeps Unwritten (d.findMemberships bases references) := by
  unfold findMemberships
  split
  · exact unwritten_frame.keeps_pure _
  · refine unwritten_frame.keeps_bind ?_ fun _ => unwritten_frame.keeps_pure _
    exact unwritten_frame.keeps_mapM fun base _ => Directory.keeps_unwritten_search base _ _ _

end KindDescriptor

namespace MembershipCache

theorem keeps_unwritten_referenceValues (cache : MembershipCache) :
    Keeps Unwritten cache.referenceValues := by
  unfold referenceValues
  split
  · exact unwritten_frame.keeps_pure _
  · refine unwritten_frame.keeps_bind ?_ fun _ => unwritten_frame.keeps_pure _
    exact cache.descriptor.keeps_unwritten_readReferenceValues cache.dn

theorem keeps_unwritten_allMemberships (cache : MembershipCache) :
    Keeps Unwritten cache.allMemberships := by
  unfold allMemberships
  split
  · exact unwritten_frame.keeps_pure _
  · refine unwritten_frame.keeps_bind cache.keeps_unwritten_referenceValues fun found => ?_
    refine unwritten_frame.keeps_bind ?_ fun _ => unwritten_frame.keeps_pure _
    exact KindDescriptor.keeps_unwritten_findMemberships _ _ _

theorem keeps_unwritten_membershipsByReferences (cache : MembershipCache)
    (references : List String) : Keeps Unwritten (cache.membershipsByReferences references) :=
  unwritten_frame.keeps_bind cache.keeps_unwritten_allMemberships fun _ =>
    unwritten_frame.keeps_pure _

theorem keeps_unwritten_membershipsByGroups (cache : MembershipCache) (groups : List Dn) :
    Keeps Unwritten (cache.membershipsByGroups groups) :=
  unwritten_frame.keeps_bind cache.keeps_unwritten_allMemberships fun _ =>
    unwritten_frame.keeps_pure _

end MembershipCache

namespace Provisioner

/-! ## What every operation begins with -/

theorem keeps_unwritten_ofInput {α : Type} (checked : Except ValidationError α) :
    Keeps Unwritten (ofInput checked) := by
  cases checked with
  | error e => exact unwritten_frame.keeps_throw _
  | ok a => exact unwritten_frame.keeps_pure _

theorem keeps_unwritten_resolve (p : Provisioner) (entryClass : EntryClass) (uid : String) :
    Keeps Unwritten (p.resolve entryClass uid) := by
  unfold resolve
  split
  · split
    · exact unwritten_frame.keeps_pure _
    · exact unwritten_frame.keeps_throw _
  · refine unwritten_frame.keeps_bind ?_ fun found => ?_
    · refine unwritten_frame.keeps_mapM fun base _ => ?_
      exact (Directory.keeps_unwritten_search base _ _ _).lift
    · split
      · exact unwritten_frame.keeps_pure _
      · exact unwritten_frame.keeps_throw _

theorem keeps_unwritten_identify (p : Provisioner) (entryClass : EntryClass) (dn : Dn) :
    Keeps Unwritten (p.identify entryClass dn) := by
  unfold identify
  split
  · exact unwritten_frame.keeps_pure _
  · refine unwritten_frame.keeps_bind
      (Directory.keeps_unwritten_read dn _).lift fun found => ?_
    cases found with
    | none => exact unwritten_frame.keeps_throw _
    | some e =>
      dsimp only
      split
      · exact unwritten_frame.keeps_pure _
      · exact unwritten_frame.keeps_throw _

theorem keeps_unwritten_requireCanonical (p : Provisioner) (kind : MembershipKind) (dn : Dn)
    (references : Option (List String)) :
    Keeps Unwritten (p.requireCanonical kind dn references) := by
  unfold requireCanonical
  split
  · exact unwritten_frame.keeps_pure _
  · exact unwritten_frame.keeps_throw _

theorem keeps_unwritten_choosePassword (p : Provisioner) (input : Input) :
    Keeps Unwritten (p.choosePassword input) := by
  unfold choosePassword
  split
  · exact unwritten_frame.keeps_bind unwritten_frame.keeps_get fun _ => unwritten_frame.keeps_pure _
  · exact unwritten_frame.keeps_pure _

theorem keeps_unwritten_hashPassword (p : Provisioner) (password : Option Secret) :
    Keeps Unwritten (p.hashPassword password) := by
  unfold hashPassword
  split
  · exact unwritten_frame.keeps_pure _
  · refine unwritten_frame.keeps_bind unwritten_frame.keeps_get fun _ => ?_
    split
    · exact unwritten_frame.keeps_pure _
    · exact unwritten_frame.keeps_throw _

/-! ## Planning -/

theorem keeps_unwritten_refuseOrphans (p : Provisioner) (kind : MembershipKind)
    (references : Option (List String)) (caches : Caches) :
    Keeps Unwritten ((p.refuseOrphans kind references).run caches) := by
  unfold refuseOrphans
  split
  · rw [StateT.run_bind]
    refine unwritten_frame.keeps_bind
      (keeps_lookUp MembershipCache.keeps_unwritten_allMemberships caches) fun found => ?_
    split
    · exact unwritten_frame.keeps_throw _
    · exact unwritten_frame.keeps_pure _
  · exact unwritten_frame.keeps_pure _

theorem keeps_unwritten_moveStale (p : Provisioner) (kind : MembershipKind) (target : Dn)
    (references : List String) (caches : Caches) :
    Keeps Unwritten ((p.moveStale kind target references).run caches) := by
  unfold moveStale
  simp only [StateT.run_bind]
  refine unwritten_frame.keeps_bind
    (keeps_lookUp MembershipCache.keeps_unwritten_referenceValues caches) fun old => ?_
  refine unwritten_frame.keeps_bind
    (keeps_lookUp (fun cache => cache.keeps_unwritten_membershipsByReferences _) old.2)
    fun stale => ?_
  split
  · exact unwritten_frame.keeps_pure _
  · rw [StateT.run_bind]
    refine unwritten_frame.keeps_bind ?_ fun _ => unwritten_frame.keeps_pure _
    exact (p.keeps_unwritten_requireCanonical kind target _).cached_lift _

theorem keeps_unwritten_followReferences (p : Provisioner) (kind : MembershipKind) (target : Dn)
    (references : Option (List String)) (caches : Caches) :
    Keeps Unwritten ((p.followReferences kind target references).run caches) := by
  unfold followReferences
  split
  · split
    · exact p.keeps_unwritten_moveStale kind target _ caches
    · exact unwritten_frame.keeps_pure _
  · exact unwritten_frame.keeps_pure _

theorem keeps_unwritten_comingReferences (kind : MembershipKind)
    (references : Option (List String)) (caches : Caches) :
    Keeps Unwritten ((comingReferences kind references).run caches) := by
  unfold comingReferences
  split
  · exact unwritten_frame.keeps_pure _
  · exact keeps_lookUp MembershipCache.keeps_unwritten_referenceValues caches

theorem keeps_unwritten_planListed (p : Provisioner) (kind : MembershipKind) (target : Dn)
    (renamed : Bool) (references : Option (List String)) (groups : List Dn)
    (diff : Diff GroupMembership) (caches : Caches) :
    Keeps Unwritten
      ((p.planListed kind target renamed references groups diff).run caches) := by
  unfold planListed
  split
  · exact unwritten_frame.keeps_pure _
  · split
    · exact unwritten_frame.keeps_pure _
    · simp only [StateT.run_bind]
      refine unwritten_frame.keeps_bind
        (keeps_unwritten_comingReferences kind references caches) fun known => ?_
      refine unwritten_frame.keeps_bind ?_ fun _ => unwritten_frame.keeps_pure _
      exact (p.keeps_unwritten_requireCanonical kind target _).cached_lift _

theorem keeps_unwritten_planReferences (p : Provisioner) (target : Dn) (renamed : Bool)
    (request : GroupRequest) (kind : MembershipKind) (references : Option (List String))
    (caches : Caches) :
    Keeps Unwritten ((p.planReferences target renamed request kind references).run caches) := by
  unfold planReferences
  rw [StateT.run_bind]
  refine unwritten_frame.keeps_bind
    (p.keeps_unwritten_followReferences kind target references caches) fun diff => ?_
  split
  · exact unwritten_frame.keeps_pure _
  · rw [StateT.run_bind]
    refine unwritten_frame.keeps_bind
      (keeps_lookUp MembershipCache.keeps_unwritten_allMemberships _) fun existing => ?_
    exact p.keeps_unwritten_planListed kind target renamed references _ _ _

theorem keeps_unwritten_loadStatic (needed : Bool) (caches : Caches) :
    Keeps Unwritten ((loadStatic needed).run caches) := by
  unfold loadStatic
  split
  · exact keeps_lookUp MembershipCache.keeps_unwritten_allMemberships caches
  · exact unwritten_frame.keeps_pure _

/-- **Planning writes nothing.** -/
theorem keeps_unwritten_planUpdate (p : Provisioner) (dn : Dn) (input : Input) (caches : Caches) :
    Keeps Unwritten ((p.planUpdate dn input).run caches) := by
  unfold planUpdate
  simp only [StateT.run_bind]
  refine unwritten_frame.keeps_bind (p.keeps_unwritten_refuseOrphans _ _ _) fun _ => ?_
  refine unwritten_frame.keeps_bind (p.keeps_unwritten_refuseOrphans _ _ _) fun _ => ?_
  refine unwritten_frame.keeps_bind
    ((p.keeps_unwritten_choosePassword input).cached_lift _) fun _ => ?_
  refine unwritten_frame.keeps_bind
    ((p.keeps_unwritten_hashPassword _).cached_lift _) fun _ => ?_
  refine unwritten_frame.keeps_bind (keeps_unwritten_loadStatic _ _) fun _ => ?_
  refine unwritten_frame.keeps_bind ?_ fun _ => unwritten_frame.keeps_pure _
  simp only [List.mapM_cons, List.mapM_nil, StateT.run_bind]
  refine unwritten_frame.keeps_bind (p.keeps_unwritten_planReferences _ _ _ _ _ _) fun _ => ?_
  refine unwritten_frame.keeps_bind ?_ fun _ => unwritten_frame.keeps_pure _
  refine unwritten_frame.keeps_bind (p.keeps_unwritten_planReferences _ _ _ _ _ _) fun _ => ?_
  exact unwritten_frame.keeps_pure _

theorem keeps_unwritten_refuseInUse (p : Provisioner) (ordinary : Attributes)
    (kind : MembershipKind) (caches : Caches) :
    Keeps Unwritten ((p.refuseInUse ordinary kind).run caches) := by
  unfold refuseInUse
  dsimp only
  split
  · rw [StateT.run_bind]
    refine unwritten_frame.keeps_bind
      (keeps_lookUp (fun cache => cache.keeps_unwritten_membershipsByReferences _) caches)
      fun found => ?_
    split
    · exact unwritten_frame.keeps_throw _
    · exact unwritten_frame.keeps_pure _
  · exact unwritten_frame.keeps_pure _

theorem keeps_unwritten_leaving (requests : GroupRequests) (kind : MembershipKind)
    (caches : Caches) : Keeps Unwritten ((leaving requests kind).run caches) := by
  unfold leaving
  dsimp only
  split
  · exact unwritten_frame.keeps_pure _
  · rw [StateT.run_bind]
    exact unwritten_frame.keeps_bind
      (keeps_lookUp (fun cache => cache.keeps_unwritten_membershipsByGroups _) caches) fun _ =>
        unwritten_frame.keeps_pure _

/-- What has to be known before values are removed is found without writing. -/
theorem keeps_unwritten_planLeaving (p : Provisioner) (input : Input) (caches : Caches) :
    Keeps Unwritten ((p.planLeaving input).run caches) := by
  unfold planLeaving
  simp only [List.forM_eq_forM, List.forM_cons, List.forM_nil, List.mapM_cons, List.mapM_nil,
    StateT.run_bind]
  refine unwritten_frame.keeps_bind ?_ fun _ => ?_
  · refine unwritten_frame.keeps_bind (p.keeps_unwritten_refuseInUse _ _ _) fun _ => ?_
    refine unwritten_frame.keeps_bind (p.keeps_unwritten_refuseInUse _ _ _) fun _ => ?_
    exact unwritten_frame.keeps_pure _
  · refine unwritten_frame.keeps_bind (keeps_unwritten_leaving _ _ _) fun _ => ?_
    refine unwritten_frame.keeps_bind ?_ fun _ => unwritten_frame.keeps_pure _
    refine unwritten_frame.keeps_bind (keeps_unwritten_leaving _ _ _) fun _ => ?_
    exact unwritten_frame.keeps_pure _

theorem keeps_unwritten_joining (p : Provisioner) (dn : Dn) (attrs : Attributes)
    (requests : GroupRequests) (kind : MembershipKind) :
    Keeps Unwritten (p.joining dn attrs requests kind) := by
  unfold joining
  dsimp only
  split
  · exact unwritten_frame.keeps_pure _
  · exact unwritten_frame.keeps_bind (p.keeps_unwritten_requireCanonical kind dn _) fun _ =>
      unwritten_frame.keeps_pure _

theorem keeps_unwritten_joinings (p : Provisioner) (dn : Dn) (attrs : Attributes)
    (requests : GroupRequests) :
    Keeps Unwritten (MembershipKind.all.mapM fun kind => do
      return (kind, ← p.joining dn attrs requests kind)) :=
  unwritten_frame.keeps_mapM fun kind _ =>
    unwritten_frame.keeps_bind (p.keeps_unwritten_joining dn attrs requests kind) fun _ =>
      unwritten_frame.keeps_pure _

end Provisioner

end Roster
