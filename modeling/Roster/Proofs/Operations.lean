import Roster.Proofs.Reading

/-!
# The operations, side by side

`Operation` gathers the four operations on entries, so that a statement about all of them can be
made once. Whatever they do is logged (`keeps_logged_run`): without a mutation in the journal the
entries are as they were.
-/

namespace Roster

open Directory (Unwritten Logged unwritten_frame logged_frame)

/-- An operation on an entry, with its input. -/
inductive Operation where
  | create (entryClass : EntryClass) (attributes : List InputAttribute)
  | update (entryClass : EntryClass) (uid : String) (attributes : List InputAttribute)
  | addValues (entryClass : EntryClass) (uid : String) (attributes : List InputAttribute)
  | removeValues (entryClass : EntryClass) (uid : String) (attributes : List InputAttribute)

/-- Carries out an operation. -/
def Operation.run (p : Provisioner) : Operation → Provisioner.Action String
  | .create entryClass attributes => p.create entryClass attributes
  | .update entryClass uid attributes => p.update entryClass uid attributes
  | .addValues entryClass uid attributes => p.addValues entryClass uid attributes
  | .removeValues entryClass uid attributes => p.removeValues entryClass uid attributes

/-! ## Steps that several operations share -/

namespace Frame

variable {p : Provisioner} {R : Directory → Directory → Prop} (frame : Frame R)
  {d : KindDescriptor} {supply : Supply}

include frame

/-- Adding a membership is one request, and no other is made if the membership is there already. -/
theorem keeps_addMembership {m : GroupMembership}
    (hmodify : Keeps R (Directory.modify supply m.group [⟨.add, d.memberAttribute, [m.reference]⟩])) :
    Keeps R (d.addMembership supply m) := by
  unfold KindDescriptor.addMembership
  refine frame.keeps_tryCatch hmodify fun e => ?_
  split
  · exact frame.keeps_pure _
  · exact frame.keeps_throw _

/-- A diff is carried out by requests for its memberships only. -/
theorem keeps_applyDiff {diff : Diff GroupMembership}
    (hremove : ∀ m ∈ diff.removed, Keeps R (d.removeMembership supply m))
    (hadd : ∀ m ∈ diff.added, Keeps R (d.addMembership supply m)) :
    Keeps R (d.applyDiff supply diff) := by
  refine frame.keeps_bind (frame.keeps_forM fun m hm => ?_) fun _ =>
    frame.keeps_forM fun m hm => ?_
  · exact hremove m (OrderedSet.mem_difference.1 hm).1
  · exact hadd m (OrderedSet.mem_difference.1 hm).1

theorem keeps_sendItems {dn : Dn} {items : List Modification}
    (hmodify : Keeps R (Directory.modify p.supply dn items)) : Keeps R (p.sendItems dn items) := by
  unfold Provisioner.sendItems
  split
  · exact frame.keeps_pure _
  · exact hmodify.lift

theorem keeps_writePassword {dn : Dn} {op : ModifyOp} (stored : Option String)
    (hmodify : ∀ value, Keeps R (Directory.modify p.supply dn
      [⟨op, p.configuration.passwordAttribute, [value]⟩])) :
    Keeps R (p.writePassword dn op stored) := by
  unfold Provisioner.writePassword
  split
  · exact frame.keeps_pure _
  · exact (hmodify _).lift

/-- The memberships of a kind are changed by reading and by requests for single memberships. -/
theorem keeps_applyReferences {dn : Dn} {plan : Provisioner.ReferencePlan}
    (hquiet : ∀ {dir after : Directory}, dir.Unwritten after → R dir after)
    (hremove : ∀ m, Keeps R ((p.descriptor plan.kind).removeMembership p.supply m))
    (hadd : ∀ m, Keeps R ((p.descriptor plan.kind).addMembership p.supply m)) :
    Keeps R (p.applyReferences dn plan) := by
  have hdiff (diff : Diff GroupMembership) :
      Keeps R ((p.descriptor plan.kind).applyDiff p.supply diff) :=
    frame.keeps_applyDiff (fun m _ => hremove m) fun m _ => hadd m
  unfold Provisioner.applyReferences
  dsimp only
  split
  · exact (hdiff plan.diff).lift
  · refine frame.keeps_bind (Keeps.lift fun dir => hquiet
      ((p.descriptor plan.kind).keeps_unwritten_readReferenceValues dn dir)) fun found => ?_
    refine frame.keeps_bind (fun dir => hquiet
      (p.keeps_unwritten_requireCanonical plan.kind dn found dir)) fun reference => ?_
    exact (hdiff _).lift

/-- After its move an update sends naming attributes, memberships and a password. -/
theorem keeps_settle {plan : Provisioner.UpdatePlan} {dn : Dn}
    (hnaming : Keeps R (p.sendItems dn plan.naming))
    (hstatic : Keeps R ((p.descriptor .static).applyDiff p.supply
      (Provisioner.staticDiff plan dn)))
    (hreferences : ∀ references ∈ plan.references, Keeps R (p.applyReferences dn references))
    (hpassword : Keeps R (p.writePassword dn .replace plan.password)) :
    Keeps R (p.settle plan dn) := by
  unfold Provisioner.settle
  refine frame.keeps_bind hnaming fun _ => ?_
  refine frame.keeps_bind hstatic.lift fun _ => ?_
  exact frame.keeps_bind (frame.keeps_forM hreferences) fun _ => hpassword

end Frame

/-! ## Changes of groups -/

/-- A relation between directories that reading keeps, and the requests for single memberships. -/
structure MembershipFrame (p : Provisioner) (R : Directory → Directory → Prop) : Prop
    extends Frame R where
  quiet {dir after : Directory} : dir.Unwritten after → R dir after
  add (kind : MembershipKind) (m : GroupMembership) :
    Keeps R ((p.descriptor kind).addMembership p.supply m)
  remove (kind : MembershipKind) (m : GroupMembership) :
    Keeps R ((p.descriptor kind).removeMembership p.supply m)

theorem logged_membershipFrame (p : Provisioner) : MembershipFrame p Logged where
  toFrame := logged_frame
  quiet h := h.logged
  remove _ m := Directory.keeps_logged_modify p.supply m.group _
  add _ m := logged_frame.keeps_addMembership (Directory.keeps_logged_modify p.supply m.group _)

namespace MembershipFrame

variable {p : Provisioner} {R : Directory → Directory → Prop} (frame : MembershipFrame p R)

include frame

theorem keeps_removeMemberships (kind : MembershipKind) (memberships : List GroupMembership) :
    Keeps R ((p.descriptor kind).removeMemberships p.supply memberships) :=
  frame.keeps_forM fun m _ => frame.remove kind m

theorem keeps_addMemberships (kind : MembershipKind) (reference : String) (groups : List Dn) :
    Keeps R ((p.descriptor kind).addMemberships p.supply reference groups) :=
  frame.keeps_forM fun group _ => frame.add kind ⟨reference, group⟩

theorem keeps_applyDiff (kind : MembershipKind) (diff : Diff GroupMembership) :
    Keeps R ((p.descriptor kind).applyDiff p.supply diff) :=
  frame.toFrame.keeps_applyDiff (fun m _ => frame.remove kind m) fun m _ => frame.add kind m

/-- Joining groups is made of reading and of memberships. -/
theorem keeps_joinGroups (dn : Dn) (requests : GroupRequests) (kind : MembershipKind) :
    Keeps R (p.joinGroups dn requests kind) := by
  unfold Provisioner.joinGroups
  dsimp only
  split
  · exact frame.keeps_pure _
  · refine frame.keeps_bind (Keeps.lift fun dir => frame.quiet
      ((p.descriptor kind).keeps_unwritten_readReferenceValues dn dir)) fun found => ?_
    refine frame.keeps_bind (fun dir => frame.quiet
      (p.keeps_unwritten_requireCanonical kind dn found dir)) fun reference => ?_
    exact (frame.keeps_addMemberships kind reference _).lift

/-- What an update sends after its move is made of memberships, naming attributes and a password. -/
theorem keeps_settle {plan : Provisioner.UpdatePlan} {dn : Dn}
    (hnaming : Keeps R (Directory.modify p.supply dn plan.naming))
    (hpassword : ∀ value, Keeps R (Directory.modify p.supply dn
      [⟨.replace, p.configuration.passwordAttribute, [value]⟩])) :
    Keeps R (p.settle plan dn) :=
  frame.toFrame.keeps_settle (frame.keeps_sendItems hnaming) (frame.keeps_applyDiff .static _)
    (fun references _ => frame.keeps_applyReferences frame.quiet (frame.remove references.kind)
      (frame.add references.kind))
    (frame.keeps_writePassword _ hpassword)

end MembershipFrame

namespace Provisioner

/-! ## Steps of the operations -/

/-- Items are sent in one request, and without items nothing is sent. -/
theorem run_sendItems_ok {p : Provisioner} {dn : Dn} {items : List Modification}
    {dir after : Directory} (h : dir.run (p.sendItems dn items) = (.ok (), after)) :
    items = [] ∧ after = dir ∨ dir.run (Directory.modify p.supply dn items) = (.ok (), after) := by
  unfold sendItems at h
  split at h
  · next hempty =>
    cases h
    exact .inl ⟨List.isEmpty_iff.1 hempty, rfl⟩
  · exact .inr (Directory.run_lift_ok h)

/-- A plan without deferred groups sends its diff. -/
theorem applyReferences_known (p : Provisioner) (dn : Dn) (kind : MembershipKind)
    (diff : Diff GroupMembership) :
    p.applyReferences dn ⟨kind, diff, []⟩ =
      liftM ((p.descriptor kind).applyDiff p.supply diff) :=
  rfl

theorem run_applyReferences {p : Provisioner} {dn : Dn} {kind : MembershipKind}
    {diff : Diff GroupMembership} {dir after : Directory}
    (hrun : dir.run ((p.descriptor kind).applyDiff p.supply diff) = (.ok (), after)) :
    dir.run (p.applyReferences dn ⟨kind, diff, []⟩) = (.ok (), after) := by
  rw [applyReferences_known]
  exact Directory.run_lift_of_ok hrun

theorem keeps_logged_modifyValues (p : Provisioner) (dn : Dn) (op : ModifyOp)
    (attrs : Attributes) : Keeps Logged (p.modifyValues dn op attrs) :=
  (logged_membershipFrame p).keeps_sendItems (Directory.keeps_logged_modify p.supply dn _)

theorem keeps_logged_writePassword (p : Provisioner) (dn : Dn) (op : ModifyOp)
    (stored : Option String) : Keeps Logged (p.writePassword dn op stored) :=
  (logged_membershipFrame p).keeps_writePassword stored fun _ =>
    Directory.keeps_logged_modify p.supply dn _

theorem keeps_logged_move (p : Provisioner) (dn : Dn) (rename : Option Rename) :
    Keeps Logged (p.move dn rename) := by
  unfold move
  split
  · exact (Directory.keeps_logged_rename p.supply dn _ _).lift
  · exact logged_frame.keeps_pure _

theorem keeps_logged_settle (p : Provisioner) (plan : UpdatePlan) (dn : Dn) :
    Keeps Logged (p.settle plan dn) :=
  (logged_membershipFrame p).keeps_settle (Directory.keeps_logged_modify p.supply dn _)
    fun _ => Directory.keeps_logged_modify p.supply dn _

theorem keeps_logged_carryOut (p : Provisioner) (plan : UpdatePlan) :
    Keeps Logged (p.carryOut plan) := by
  unfold carryOut
  refine logged_frame.keeps_bind (p.keeps_logged_modifyValues _ _ _) fun _ => ?_
  refine logged_frame.keeps_bind (p.keeps_logged_move _ _) fun moved => ?_
  exact logged_frame.keeps_bind (p.keeps_logged_settle plan _) fun _ => logged_frame.keeps_pure _

theorem keeps_logged_joinGroups (p : Provisioner) (dn : Dn) (requests : GroupRequests)
    (kind : MembershipKind) : Keeps Logged (p.joinGroups dn requests kind) :=
  (logged_membershipFrame p).keeps_joinGroups dn requests kind

theorem keeps_logged_create (p : Provisioner) (entryClass : EntryClass)
    (attributes : List InputAttribute) : Keeps Logged (p.create entryClass attributes) := by
  unfold create
  refine logged_frame.keeps_bind (keeps_unwritten_ofInput _).logged fun input => ?_
  refine logged_frame.keeps_bind (keeps_unwritten_ofInput _).logged fun dn => ?_
  dsimp only
  refine logged_frame.keeps_bind (p.keeps_unwritten_joinings dn _ _).logged fun diffs => ?_
  refine logged_frame.keeps_bind (p.keeps_unwritten_choosePassword input).logged fun _ => ?_
  refine logged_frame.keeps_bind (p.keeps_unwritten_hashPassword _).logged fun stored => ?_
  refine logged_frame.keeps_bind (Directory.keeps_logged_add p.supply dn _).lift fun _ => ?_
  refine logged_frame.keeps_bind (logged_frame.keeps_forM fun item _ => ?_) fun _ => ?_
  · exact ((logged_membershipFrame p).keeps_applyDiff item.1 item.2).lift
  · exact (p.keeps_unwritten_identify entryClass dn).logged

theorem keeps_logged_update (p : Provisioner) (entryClass : EntryClass) (uid : String)
    (attributes : List InputAttribute) : Keeps Logged (p.update entryClass uid attributes) := by
  unfold update
  refine logged_frame.keeps_bind (p.keeps_unwritten_resolve entryClass uid).logged fun dn => ?_
  refine logged_frame.keeps_bind (keeps_unwritten_ofInput _).logged fun input => ?_
  refine logged_frame.keeps_bind (p.keeps_unwritten_planUpdate dn input _).logged fun plan => ?_
  refine logged_frame.keeps_bind (p.keeps_logged_carryOut plan.1) fun updated => ?_
  exact (p.keeps_unwritten_identify entryClass updated).logged

theorem keeps_logged_addValues (p : Provisioner) (entryClass : EntryClass) (uid : String)
    (attributes : List InputAttribute) : Keeps Logged (p.addValues entryClass uid attributes) := by
  unfold addValues
  refine logged_frame.keeps_bind (p.keeps_unwritten_resolve entryClass uid).logged fun dn => ?_
  refine logged_frame.keeps_bind (keeps_unwritten_ofInput _).logged fun input => ?_
  refine logged_frame.keeps_bind (p.keeps_unwritten_choosePassword input).logged fun _ => ?_
  refine logged_frame.keeps_bind (p.keeps_unwritten_hashPassword _).logged fun stored => ?_
  refine logged_frame.keeps_bind (p.keeps_logged_modifyValues dn _ _) fun _ => ?_
  refine logged_frame.keeps_bind (p.keeps_logged_writePassword dn _ _) fun _ => ?_
  refine logged_frame.keeps_bind (logged_frame.keeps_forM fun kind _ => ?_) fun _ =>
    logged_frame.keeps_pure _
  exact p.keeps_logged_joinGroups dn input.requests kind

theorem keeps_logged_removeValues (p : Provisioner) (entryClass : EntryClass) (uid : String)
    (attributes : List InputAttribute) :
    Keeps Logged (p.removeValues entryClass uid attributes) := by
  unfold removeValues
  refine logged_frame.keeps_bind (p.keeps_unwritten_resolve entryClass uid).logged fun dn => ?_
  refine logged_frame.keeps_bind (keeps_unwritten_ofInput _).logged fun input => ?_
  refine logged_frame.keeps_bind (p.keeps_unwritten_hashPassword _).logged fun stored => ?_
  refine logged_frame.keeps_bind (p.keeps_unwritten_planLeaving input _).logged fun ending => ?_
  refine logged_frame.keeps_bind (p.keeps_logged_modifyValues dn _ _) fun _ => ?_
  refine logged_frame.keeps_bind (p.keeps_logged_writePassword dn _ _) fun _ => ?_
  refine logged_frame.keeps_bind
    ((logged_membershipFrame p).keeps_removeMemberships .static _).lift fun _ => ?_
  refine logged_frame.keeps_bind (logged_frame.keeps_forM fun item _ => ?_) fun _ =>
    logged_frame.keeps_pure _
  exact ((logged_membershipFrame p).keeps_removeMemberships item.1 item.2).lift

end Provisioner

/-- **The journal tells the whole story of an operation.** -/
theorem keeps_logged_run (p : Provisioner) (op : Operation) : Keeps Logged (op.run p) := by
  cases op with
  | create entryClass attributes => exact p.keeps_logged_create entryClass attributes
  | update entryClass uid attributes => exact p.keeps_logged_update entryClass uid attributes
  | addValues entryClass uid attributes => exact p.keeps_logged_addValues entryClass uid attributes
  | removeValues entryClass uid attributes =>
    exact p.keeps_logged_removeValues entryClass uid attributes

end Roster
