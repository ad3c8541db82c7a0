import Roster.Proofs.Courses
import Roster.Proofs.Spreading

/-!
# The order of the requests of an operation

Each operation sends its requests for changes in an order of its own (`Operation.Order`): an update
replaces attributes, moves the entry, replaces naming attributes under the new name, changes the
memberships of one kind after the other and at last writes the password. `run_in_order` says so of
all operations, wherever the directory fails: what is sent is the beginning of such a sequence, all
of it if the operation succeeds, and nothing is sent after a request that failed.
-/

namespace Roster

open Directory (Unwritten unwritten_frame)

/-- One choice for each kind of groups. -/
def MembershipKind.pick {α : Type} (static posix mailAlias : α) : MembershipKind → α
  | .static => static
  | .posix => posix
  | .mailAlias => mailAlias

theorem MembershipKind.pick_same {α : Type} (a : α) : MembershipKind.pick a a a = fun _ => a := by
  funext kind
  cases kind <;> rfl

namespace Provisioner

/-! ## What the parts of an operation send -/

/-- The request for some items, none if there are none. -/
def itemErrands (dn : Dn) (items : List Modification) : List Errand :=
  if items.isEmpty then [] else [⟨.modify dn items, false⟩]

/-- The request for attributes, with one item for each of them. -/
def valueErrands (dn : Dn) (op : ModifyOp) (attrs : Attributes) : List Errand :=
  itemErrands dn (attrs.pairs.map fun (name, values) => ⟨op, name, values⟩)

/-- The request for a move, if one is asked for. -/
def moveErrands (dn : Dn) (rename : Option Rename) : List Errand :=
  match rename with
  | some r => [⟨.rename dn r.rdn r.superior, false⟩]
  | none => []

/-- The request for a stored password, with the password as its only item. -/
def passwordErrands (p : Provisioner) (dn : Dn) (op : ModifyOp) (stored : Option String) :
    List Errand :=
  match stored with
  | some value => [⟨.modify dn [⟨op, p.configuration.passwordAttribute, [value]⟩], false⟩]
  | none => []

/-- The request that adds a reference to a group. It is no failure if the reference is there. -/
def joinErrand (p : Provisioner) (kind : MembershipKind) (m : GroupMembership) : Errand :=
  ⟨.modify m.group [⟨.add, (p.descriptor kind).memberAttribute, [m.reference]⟩], true⟩

/-- The request that removes a reference from a group. -/
def leaveErrand (p : Provisioner) (kind : MembershipKind) (m : GroupMembership) : Errand :=
  ⟨.modify m.group [⟨.delete, (p.descriptor kind).memberAttribute, [m.reference]⟩], false⟩

/-- The requests for the memberships of a kind: those that end, then those that begin. -/
def turn (p : Provisioner) (kind : MembershipKind) (ended begun : List GroupMembership) :
    List Errand :=
  ended.map (p.leaveErrand kind) ++ begun.map (p.joinErrand kind)

/-- The requests for memberships, one kind after the other. -/
def turns (p : Provisioner) (ended begun : MembershipKind → List GroupMembership) : List Errand :=
  MembershipKind.all.flatMap fun kind => p.turn kind (ended kind) (begun kind)

/-- Requests for the memberships of a kind. -/
def IsTurn (p : Provisioner) (kind : MembershipKind) (full : List Errand) : Prop :=
  ∃ ended begun, full = p.turn kind ended begun

/-- One turn for each kind makes up the requests for memberships. -/
theorem turns_pick (p : Provisioner)
    (ended begun endedPosix begunPosix endedAlias begunAlias : List GroupMembership) :
    p.turns (MembershipKind.pick ended endedPosix endedAlias)
        (MembershipKind.pick begun begunPosix begunAlias) =
      p.turn .static ended begun ++
        (p.turn .posix endedPosix begunPosix ++ p.turn .mailAlias endedAlias begunAlias) := by
  simp [turns, MembershipKind.all, MembershipKind.pick]

variable (p : Provisioner)

theorem issues_sendItems (dn : Dn) (items : List Modification) :
    Issues p.supply .directory (· = itemErrands dn items) (p.sendItems dn items) := by
  unfold sendItems itemErrands
  split
  · exact Issues.pure ()
  · exact (Issues.modify dn items).lift

theorem issues_modifyValues (dn : Dn) (op : ModifyOp) (attrs : Attributes) :
    Issues p.supply .directory (· = valueErrands dn op attrs) (p.modifyValues dn op attrs) :=
  p.issues_sendItems dn _

theorem issues_move (dn : Dn) (rename : Option Rename) :
    Issues p.supply .directory (· = moveErrands dn rename) (p.move dn rename) := by
  unfold move moveErrands
  cases rename with
  | none => exact Issues.pure dn
  | some r => exact (Issues.rename dn r.rdn r.superior).lift

theorem issues_writePassword (dn : Dn) (op : ModifyOp) (stored : Option String) :
    Issues p.supply .directory (· = p.passwordErrands dn op stored)
      (p.writePassword dn op stored) := by
  unfold writePassword passwordErrands
  cases stored with
  | none => exact Issues.pure ()
  | some value => exact (Issues.modify dn _).lift

/-- A move leads to the name that it asks for. -/
theorem ends_move (dn : Dn) (rename : Option Rename) :
    Ends (· = landing dn rename) (fun _ => True) (p.move dn rename) := by
  unfold move
  cases rename with
  | none => exact Ends.pure rfl
  | some r =>
    intro dir
    rw [Directory.run_lift]
    cases hrun : dir.run (Directory.rename p.supply dn r.rdn r.superior) with
    | mk result after =>
      cases result with
      | error e => trivial
      | ok landed => exact (Directory.run_rename_ok hrun).1

/-! ## Memberships -/

/-- Adding a membership goes on if it is there already. -/
theorem issues_addMembership (kind : MembershipKind) (m : GroupMembership) :
    Issues p.supply id (· = [p.joinErrand kind m])
      ((p.descriptor kind).addMembership p.supply m) := by
  intro dir
  refine ⟨[p.joinErrand kind m], _, ?_, rfl, List.prefix_rfl, fun _ _ => rfl⟩
  unfold KindDescriptor.addMembership
  rw [Directory.run_tryCatch]
  cases hrun : dir.run (Directory.modify p.supply m.group
      [⟨.add, (p.descriptor kind).memberAttribute, [m.reference]⟩]) with
  | mk result after =>
    have hquiet := unwritten_frame.refl after
    cases result with
    | ok _ => exact .goesOn (unwritten_frame.refl dir) hrun trivial (.rest hquiet)
    | error e =>
      dsimp only
      by_cases hexists : e.isValueExists = true
      · rw [if_pos hexists]
        exact .goesOn (unwritten_frame.refl dir) hrun ⟨rfl, hexists⟩ (.rest hquiet)
      · rw [if_neg hexists]
        exact .stops (unwritten_frame.refl dir) hrun fun hdone => hexists hdone.2

theorem issues_removeMemberships (kind : MembershipKind) (memberships : List GroupMembership) :
    Issues p.supply id (· = memberships.map (p.leaveErrand kind))
      ((p.descriptor kind).removeMemberships p.supply memberships) := by
  rw [List.map_eq_flatMap]
  exact Issues.forM fun m _ => Issues.modify m.group _

theorem issues_addAll (kind : MembershipKind) (memberships : List GroupMembership) :
    Issues p.supply id (· = memberships.map (p.joinErrand kind))
      (memberships.forM ((p.descriptor kind).addMembership p.supply)) := by
  rw [List.map_eq_flatMap]
  exact Issues.forM fun m _ => p.issues_addMembership kind m

theorem issues_applyDiff (kind : MembershipKind) (diff : Diff GroupMembership) :
    Issues p.supply id (· = p.turn kind diff.effectiveRemoved diff.effectiveAdded)
      ((p.descriptor kind).applyDiff p.supply diff) :=
  (Issues.seq (p.issues_removeMemberships kind _) (p.issues_addAll kind _)).mono
    fun _ ⟨_, _, hended, hbegun, hfull⟩ => by rw [hfull, hended, hbegun, turn]

/-- A reference is added to the groups one after the other. -/
theorem issues_addMemberships (kind : MembershipKind) (reference : String) (groups : List Dn) :
    Issues p.supply id (· = p.turn kind [] (groups.map fun group => ⟨reference, group⟩))
      ((p.descriptor kind).addMemberships p.supply reference groups) := by
  have hjoins : Issues p.supply id
      (· = groups.flatMap fun group => [p.joinErrand kind ⟨reference, group⟩])
      ((p.descriptor kind).addMemberships p.supply reference groups) :=
    Issues.forM fun group _ => p.issues_addMembership kind ⟨reference, group⟩
  refine hjoins.mono fun full hfull => ?_
  rw [hfull, turn, List.map_nil, List.nil_append, List.map_map, List.map_eq_flatMap]
  rfl

/-- What is planned for a kind takes one turn, whose references may be read beforehand. -/
theorem issues_applyReferences (dn : Dn) (plan : ReferencePlan) :
    Issues p.supply .directory (p.IsTurn plan.kind) (p.applyReferences dn plan) := by
  have hdiff (diff : Diff GroupMembership) :
      Issues p.supply .directory (p.IsTurn plan.kind)
        (liftM ((p.descriptor plan.kind).applyDiff p.supply diff) : Action Unit) :=
    (p.issues_applyDiff plan.kind diff).lift.mono fun full hfull => ⟨_, _, hfull⟩
  have hsome : ∃ full, p.IsTurn plan.kind full := ⟨_, [], [], rfl⟩
  unfold applyReferences
  dsimp only
  split
  · exact hdiff plan.diff
  · refine Issues.after_quiet
      ((p.descriptor plan.kind).keeps_unwritten_readReferenceValues dn).lift (ends_any _)
      (fun found _ => ?_) hsome
    exact Issues.after_quiet (p.keeps_unwritten_requireCanonical plan.kind dn found) (ends_any _)
      (fun reference _ => hdiff _) hsome

/-- The groups that are listed for a kind are joined in one turn. -/
theorem issues_joinGroups (dn : Dn) (requests : GroupRequests) (kind : MembershipKind) :
    Issues p.supply .directory (fun full => ∃ begun, full = p.turn kind [] begun)
      (p.joinGroups dn requests kind) := by
  have hsome : ∃ full begun, full = p.turn kind [] begun := ⟨_, [], rfl⟩
  unfold joinGroups
  dsimp only
  split
  · exact (Issues.pure ()).mono fun full hfull => ⟨[], hfull⟩
  · refine Issues.after_quiet
      ((p.descriptor kind).keeps_unwritten_readReferenceValues dn).lift (ends_any _)
      (fun found _ => ?_) hsome
    refine Issues.after_quiet (p.keeps_unwritten_requireCanonical kind dn found) (ends_any _)
      (fun reference _ => ?_) hsome
    exact (p.issues_addMemberships kind reference _).lift.mono fun full hfull => ⟨_, hfull⟩

/-! ## Updates -/

/-- What an update sends for an entry under the name that it has after a move: naming attributes,
memberships and the password. -/
def settledErrands (p : Provisioner) (dn : Dn) (naming : List Modification)
    (ended begun : MembershipKind → List GroupMembership) (stored : Option String) : List Errand :=
  itemErrands dn naming ++ (p.turns ended begun ++ p.passwordErrands dn .replace stored)

/-- All that an update sends: attributes, the move, and what is settled after it. -/
def updateErrands (p : Provisioner) (dn : Dn) (rename : Option Rename) (attrs : Attributes)
    (naming : List Modification) (ended begun : MembershipKind → List GroupMembership)
    (stored : Option String) : List Errand :=
  valueErrands dn .replace attrs ++ (moveErrands dn rename ++
    p.settledErrands (landing dn rename) naming ended begun stored)

/-- What is settled after a move. -/
theorem issues_settle {plan : UpdatePlan} {posix mailAlias : ReferencePlan} (dn : Dn)
    (hlist : plan.references = [posix, mailAlias]) (hposix : posix.kind = .posix)
    (halias : mailAlias.kind = .mailAlias) :
    Issues p.supply .directory (fun full => ∃ ended begun,
        full = p.settledErrands dn plan.naming ended begun plan.password)
      (p.settle plan dn) := by
  have hstatic : Issues p.supply .directory (p.IsTurn .static)
      (liftM ((p.descriptor .static).applyDiff p.supply (staticDiff plan dn)) : Action Unit) :=
    (p.issues_applyDiff .static _).lift.mono fun full hfull => ⟨_, _, hfull⟩
  have hreferences := Issues.seq (p.issues_applyReferences dn posix)
    (p.issues_applyReferences dn mailAlias)
  have hpassword := p.issues_writePassword dn .replace plan.password
  rw [hposix, halias] at hreferences
  unfold settle
  rw [hlist, List.forM_eq_forM, List.forM_cons, List.forM_cons, List.forM_nil, bind_pure_unit]
  refine (Issues.seq (p.issues_sendItems dn plan.naming)
    (Issues.seq hstatic (Issues.seq hreferences hpassword))).mono ?_
  rintro _ ⟨_, _, rfl, ⟨_, _, ⟨ended, begun, rfl⟩,
    ⟨_, _, ⟨_, _, ⟨endedPosix, begunPosix, rfl⟩, ⟨endedAlias, begunAlias, rfl⟩, rfl⟩, rfl, rfl⟩,
    rfl⟩, rfl⟩
  refine ⟨MembershipKind.pick ended endedPosix endedAlias,
    MembershipKind.pick begun begunPosix begunAlias, ?_⟩
  rw [settledErrands, turns_pick]
  simp only [List.append_assoc]

/-- Carrying out a plan. -/
theorem issues_carryOut {plan : UpdatePlan} {posix mailAlias : ReferencePlan}
    (hlist : plan.references = [posix, mailAlias]) (hposix : posix.kind = .posix)
    (halias : mailAlias.kind = .mailAlias) :
    Issues p.supply .directory (fun full => ∃ ended begun, full = p.updateErrands plan.dn plan.rename
        plan.ordinary plan.naming ended begun plan.password)
      (p.carryOut plan) := by
  have hmoved : Issues p.supply .directory
      (Then (· = moveErrands plan.dn plan.rename) fun full => ∃ ended begun,
        full = p.settledErrands (landing plan.dn plan.rename) plan.naming ended begun plan.password)
      (do
        let dn ← p.move plan.dn plan.rename
        p.settle plan dn
        return dn) := by
    refine Issues.bind (p.issues_move plan.dn plan.rename) (p.ends_move plan.dn plan.rename)
      (fun landed hlanded => ?_) ⟨_, fun _ => [], fun _ => [], rfl⟩
    subst hlanded
    exact (p.issues_settle _ hlist hposix halias).before_quiet fun _ => unwritten_frame.keeps_pure _
  refine (Issues.seq (p.issues_modifyValues plan.dn _ _) hmoved).mono ?_
  rintro _ ⟨_, _, rfl, ⟨_, _, rfl, ⟨ended, begun, rfl⟩, rfl⟩, rfl⟩
  exact ⟨ended, begun, rfl⟩

/-! ## Other operations -/

/-- The groups listed for all kinds are joined one kind after the other. -/
theorem issues_joinAll (dn : Dn) (requests : GroupRequests) :
    Issues p.supply .directory (fun full => ∃ begun, full = p.turns (fun _ => []) begun)
      (MembershipKind.all.forM (p.joinGroups dn requests)) := by
  unfold MembershipKind.all
  rw [List.forM_eq_forM, List.forM_cons, List.forM_cons, List.forM_cons, List.forM_nil,
    bind_pure_unit]
  refine (Issues.seq (p.issues_joinGroups dn requests .static)
    (Issues.seq (p.issues_joinGroups dn requests .posix)
      (p.issues_joinGroups dn requests .mailAlias))).mono ?_
  rintro _ ⟨_, _, ⟨begun, rfl⟩, ⟨_, _, ⟨begunPosix, rfl⟩, ⟨begunAlias, rfl⟩, rfl⟩, rfl⟩
  refine ⟨MembershipKind.pick begun begunPosix begunAlias, ?_⟩
  rw [← MembershipKind.pick_same, turns_pick]

/-- The memberships of a new entry are worked out for one kind after the other. -/
theorem ends_joinAll {dn : Dn} {attrs : Attributes} {requests : GroupRequests}
    {T : MembershipKind → Diff GroupMembership → Prop}
    (hjoin : ∀ kind, Ends (T kind) (fun _ => True) (p.joining dn attrs requests kind)) :
    Ends (fun diffs => ∃ joins : MembershipKind → Diff GroupMembership,
        diffs = MembershipKind.all.map (fun kind => (kind, joins kind)) ∧
          ∀ kind, T kind (joins kind)) (fun _ => True)
      (MembershipKind.all.mapM fun kind => do
        return (kind, ← p.joining dn attrs requests kind)) := by
  simp only [MembershipKind.all, List.mapM_cons, List.mapM_nil, bind_assoc, pure_bind]
  refine Ends.bind (hjoin .static) fun static hstatic => ?_
  refine Ends.bind (hjoin .posix) fun posix hposix => ?_
  refine Ends.bind (hjoin .mailAlias) fun mailAlias halias => Ends.pure ?_
  refine ⟨MembershipKind.pick static posix mailAlias, rfl, fun kind => ?_⟩
  cases kind <;> assumption

/-- A diff lets a new entry join the groups listed for a kind, all of them under one reference, which
is the canonical one of those that the entry will have. -/
structure Joins (p : Provisioner) (dn : Dn) (attrs : Attributes) (requests : GroupRequests)
    (kind : MembershipKind) (reference : String) (diff : Diff GroupMembership) : Prop where
  removed : diff.removed = []
  added : diff.added =
    OrderedSet.insertAll [] ((requests.get kind).groups.map fun group => ⟨reference, group⟩)
  canonical : (requests.get kind).groups ≠ [] →
    ((p.descriptor kind).referenceValues (some dn) attrs).bind canonicalReference? = some reference

theorem ends_joining_joins (dn : Dn) (attrs : Attributes) (requests : GroupRequests)
    (kind : MembershipKind) :
    Ends (fun diff => ∃ reference, p.Joins dn attrs requests kind reference diff) (fun _ => True)
      (p.joining dn attrs requests kind) := by
  unfold joining
  dsimp only
  split
  · next hnone =>
    have hgroups := List.isEmpty_iff.1 hnone
    exact Ends.pure ⟨"", rfl, by rw [hgroups]; rfl, fun hsome => absurd hgroups hsome⟩
  · refine Ends.bind (p.ends_requireCanonical_least kind dn _) fun reference href => ?_
    exact Ends.pure ⟨reference, rfl, rfl, fun _ => href⟩

/-- The memberships of a new entry only begin, under the least reference that it will have. -/
theorem ends_joining_least (dn : Dn) (attrs : Attributes) (requests : GroupRequests)
    (kind : MembershipKind) :
    Ends (fun diff => diff.removed = [] ∧ ∀ m ∈ diff.added,
        ((p.descriptor kind).referenceValues (some dn) attrs).bind canonicalReference? =
          some m.reference) (fun _ => True)
      (p.joining dn attrs requests kind) := by
  refine (p.ends_joining_joins dn attrs requests kind).mono ?_ fun _ _ => trivial
  rintro diff ⟨reference, hjoins⟩
  refine ⟨hjoins.removed, fun m hm => ?_⟩
  rw [hjoins.added] at hm
  obtain ⟨group, hgroup, rfl⟩ := List.mem_map.1 (OrderedSet.mem_of_mem_insertAll_nil hm)
  exact hjoins.canonical (List.ne_nil_of_mem hgroup)

theorem issues_applyJoins {joins : MembershipKind → Diff GroupMembership}
    (hjoins : ∀ kind, (joins kind).removed = []) :
    Issues p.supply .directory (· = p.turns (fun _ => []) fun kind => (joins kind).effectiveAdded)
      ((MembershipKind.all.map fun kind => (kind, joins kind)).forM fun (kind, diff) =>
        liftM ((p.descriptor kind).applyDiff p.supply diff) : Action Unit) := by
  refine (Issues.forM fun item _ => (p.issues_applyDiff item.1 item.2).lift).mono ?_
  rintro _ rfl
  have hnone (kind : MembershipKind) : (joins kind).effectiveRemoved = [] := by
    rw [Diff.effectiveRemoved, hjoins kind]
    rfl
  rw [List.flatMap_map, turns]
  simp only [hnone]

/-- The memberships that a removal of values ends are found for one kind after the other. -/
theorem ends_planLeaving (input : Input) (caches : Caches) :
    Ends (fun found => found.1.map Prod.fst = [MembershipKind.posix, .mailAlias]) (fun _ => True)
      ((p.planLeaving input).run caches) := by
  have hleaving (kind : MembershipKind) (caches : Caches) :
      Ends (fun found => found.1.1 = kind) (fun _ => True)
        ((leaving input.requests kind).run caches) := by
    unfold leaving
    dsimp only
    split
    · exact Ends.pure rfl
    · rw [StateT.run_bind]
      exact Ends.bind (ends_any _) fun _ _ => Ends.pure rfl
  unfold planLeaving
  rw [StateT.run_bind]
  refine Ends.bind (ends_any _) fun _ _ => ?_
  simp only [List.mapM_cons, List.mapM_nil, StateT.run_bind]
  refine Ends.bind (hleaving .posix _) fun posix hposix => ?_
  refine Ends.bind (S := fun found => found.1.map Prod.fst = [MembershipKind.mailAlias]) ?_
    fun rest hrest => Ends.pure (by rw [List.map_cons, hposix, hrest])
  refine Ends.bind (hleaving .mailAlias _) fun mailAlias halias => Ends.pure ?_
  rw [List.map_cons, halias, List.map_nil]

/-- All memberships that a removal of values ends go one kind after the other. -/
theorem issues_leaveAll (static : List GroupMembership)
    {ending : List (MembershipKind × List GroupMembership)}
    (hending : ending.map Prod.fst = [MembershipKind.posix, .mailAlias]) :
    Issues p.supply .directory (fun full => ∃ ended, full = p.turns ended fun _ => []) (do
      (p.descriptor .static).removeMemberships p.supply static
      ending.forM fun (kind, memberships) =>
        (p.descriptor kind).removeMemberships p.supply memberships : Action Unit) := by
  refine (Issues.seq (p.issues_removeMemberships .static static).lift
    (Issues.forM fun item _ => (p.issues_removeMemberships item.1 item.2).lift)).mono ?_
  rintro _ ⟨_, _, rfl, rfl, rfl⟩
  match ending with
  | [] | [_] | _ :: _ :: _ :: _ => simp at hending
  | [(kind, posix), (kind', mailAlias)] =>
    cases hending
    refine ⟨MembershipKind.pick static posix mailAlias, ?_⟩
    rw [← MembershipKind.pick_same, turns_pick]
    simp [turn]

/-- Whatever is stored, a plan is made for what the input asks for. -/
theorem ends_planUpdate_planned (dn : Dn) (input : Input) :
    Ends (fun found => ∃ e entries, PlannedInFull p dn e entries input found.1) (fun _ => True)
      ((p.planUpdate dn input).run (p.caches dn)) := by
  intro dir
  have hfinds := finds_planUpdate (p := p) (E := fun _ => True)
    (reads_entry ⟨dir.entries, dn⟩ fun _ => trivial) input (fun _ _ _ => trivial) dir (p.caches dn)
    rfl (p.agree_caches dn _ _)
  cases hrun : dir.run ((p.planUpdate dn input).run (p.caches dn)) with
  | mk result after =>
    rw [hrun] at hfinds
    cases result with
    | error err => trivial
    | ok found => exact ⟨_, _, hfinds.1⟩

/-- The attributes of a new entry with the password that is stored, if there is one. -/
def withPassword (p : Provisioner) (attrs : Attributes) (stored : Option String) : Attributes :=
  match stored with
  | some value => attrs.put p.configuration.passwordAttribute [value]
  | none => attrs

/-- The password that an operation stores, if it is asked to store one. -/
theorem ends_stored (input : Input) :
    Ends (fun stored => stored.isSome = (input.resetPassword || input.password.isSome))
      (fun _ => True) (p.choosePassword input >>= p.hashPassword) := by
  refine Ends.bind ((p.ends_choosePassword input).mono (fun _ h => h) fun _ _ => trivial)
    fun chosen hchosen => (p.ends_hashPassword chosen).mono (fun stored hstored => ?_)
      fun _ _ => trivial
  rw [hstored, Bool.eq_iff_iff, hchosen, Bool.or_eq_true]

theorem keeps_unwritten_stored (input : Input) :
    Keeps Unwritten (p.choosePassword input >>= p.hashPassword) :=
  unwritten_frame.keeps_bind (p.keeps_unwritten_choosePassword input)
    fun _ => p.keeps_unwritten_hashPassword _

end Provisioner

namespace Operation

/-! ## The orders -/

/-- Whether an operation stores a password. A removal of values makes none up. -/
def storesPassword (input : Input) : Operation → Bool
  | .create .. | .update .. | .addValues .. => input.resetPassword || input.password.isSome
  | .removeValues .. => input.password.isSome

/-- The requests for changes of an operation, in their order: a new entry is added and joins groups;
an update has the order of its plan; values are added or removed, then the password, then the
memberships. -/
def errands (p : Provisioner) (dn : Dn) (input : Input)
    (ended begun : MembershipKind → List GroupMembership) (stored : Option String) :
    Operation → List Errand
  | .create entryClass attributes =>
    ⟨.add dn (p.withPassword ((create entryClass attributes).attributes p input) stored), false⟩ ::
      p.turns (fun _ => []) begun
  | .update entryClass uid attributes =>
    let rename := Provisioner.renameFor? dn input.name
    let split :=
      Provisioner.splitNaming rename ((update entryClass uid attributes).attributes p input)
    p.updateErrands dn rename split.2 split.1 ended begun stored
  | .addValues .. =>
    Provisioner.valueErrands dn .add input.ordinary ++
      (p.passwordErrands dn .add stored ++ p.turns (fun _ => []) begun)
  | .removeValues .. =>
    Provisioner.valueErrands dn .delete input.ordinary ++
      (p.passwordErrands dn .delete stored ++ p.turns ended fun _ => [])

/-- A sequence of requests is in the order of the operation. The order leaves open which memberships
end and begin: any lists will do here. Which ones they are is the subject of what is planned for each
kind (`Provisioner.PlannedInFull`, `Provisioner.Joins`), and what groups hold afterwards that of
`Provisioner.Reconciled` and `Provisioner.MembersFollow`. -/
def Order (op : Operation) (p : Provisioner) (dn : Dn) (input : Input) (full : List Errand) : Prop :=
  ∃ ended begun stored, stored.isSome = op.storesPassword input ∧
    full = op.errands p dn input ended begun stored

variable {p : Provisioner} {dn : Dn} {input : Input}

/-- There is such a sequence. -/
theorem exists_order (op : Operation) (p : Provisioner) (dn : Dn) (input : Input) :
    ∃ full, op.Order p dn input full := by
  refine ⟨_, fun _ => [], fun _ => [], if op.storesPassword input then some "" else none, ?_, rfl⟩
  cases op.storesPassword input <;> rfl

/-- The result and the directory of a run in the order of the operation, or of one that fails before
it is about any entry. -/
def Orderly (op : Operation) (p : Provisioner) (dir : Directory)
    (run : Except ProvisioningError String × Directory) : Prop :=
  ∃ sent, Course p.supply .directory dir sent run.1 run.2 ∧
    ((sent = [] ∧ (∃ err, run.1 = .error err) ∧ ∀ dn input, ¬ op.Concerns p dir dn input) ∨
      ∃ dn input full, op.Concerns p dir dn input ∧ op.Order p dn input full ∧ sent <+: full ∧
        ∀ uid, run.1 = .ok uid → sent = full)

/-- An operation that is known by an identifier is orderly if the rest of it sends requests in its
order. -/
theorem orderly_opened {op : Operation} {entryClass : EntryClass} {uid : String} {mode : InputMode}
    {attributes : List InputAttribute} {rest : Dn → Input → Provisioner.Action String}
    (hconcerns : ∀ dir dn input, op.Concerns p dir dn input ↔
      (dir.run (p.resolve entryClass uid)).1 = .ok dn ∧ Input.partition mode attributes = .ok input)
    (hrest : ∀ dn input, Issues p.supply .directory (op.Order p dn input) (rest dn input))
    (dir : Directory) :
    op.Orderly p dir (dir.run (do
      let dn ← p.resolve entryClass uid
      let input ← Provisioner.ofInput (Input.partition mode attributes)
      rest dn input)) := by
  have hquiet := p.keeps_unwritten_resolve entryClass uid dir
  rw [Directory.run_bind]
  cases hrun : dir.run (p.resolve entryClass uid) with
  | mk result mid =>
    rw [hrun] at hquiet
    cases result with
    | error err =>
      refine ⟨[], .rest hquiet, .inl ⟨rfl, ⟨err, rfl⟩, fun dn input h => ?_⟩⟩
      rw [hconcerns, hrun] at h
      cases h.1
    | ok dn =>
      cases hinput : Input.partition mode attributes with
      | error err =>
        refine ⟨[], .rest hquiet, .inl ⟨rfl, ⟨.validation err, rfl⟩, fun dn input h => ?_⟩⟩
        rw [hconcerns, hinput] at h
        cases h.2
      | ok input =>
        obtain ⟨sent, full, hcourse, hfull, hbegins, hall⟩ := hrest dn input mid
        refine ⟨sent, hcourse.of_unwritten hquiet, .inr ⟨dn, input, full, ?_, hfull, hbegins, hall⟩⟩
        rw [hconcerns, hrun]
        exact ⟨rfl, hinput⟩

theorem orderly_update (entryClass : EntryClass) (uid : String) (attributes : List InputAttribute)
    (dir : Directory) : (update entryClass uid attributes).Orderly p dir
      (dir.run (p.update entryClass uid attributes)) := by
  unfold Provisioner.update
  refine orderly_opened (fun _ _ _ => Iff.rfl) (fun dn input => ?_) dir
  refine Issues.after_quiet (p.keeps_unwritten_planUpdate dn input _)
    (p.ends_planUpdate_planned dn input) (fun found hfound => ?_) (exists_order _ p dn input)
  obtain ⟨e, entries, hplan⟩ := hfound
  obtain ⟨posix, mailAlias, hlist, hposix, halias⟩ := hplan.references
  refine ((p.issues_carryOut hlist hposix.kind_eq halias.kind_eq).before_quiet
    fun updated => p.keeps_unwritten_identify entryClass updated).mono ?_
  rintro _ ⟨ended, begun, rfl⟩
  refine ⟨ended, begun, found.1.password, ?_, ?_⟩
  · rw [storesPassword, Bool.eq_iff_iff, hplan.password, Bool.or_eq_true]
  · have hnaming := congrArg Prod.fst hplan.split_eq
    have hordinary := congrArg Prod.snd hplan.split_eq
    dsimp only at hnaming hordinary
    rw [hplan.dn_eq, hplan.rename_eq, hnaming, hordinary]
    rfl

theorem orderly_addValues (entryClass : EntryClass) (uid : String)
    (attributes : List InputAttribute) (dir : Directory) :
    (addValues entryClass uid attributes).Orderly p dir
      (dir.run (p.addValues entryClass uid attributes)) := by
  unfold Provisioner.addValues
  refine orderly_opened (fun _ _ _ => Iff.rfl) (fun dn input => ?_) dir
  rw [← bind_assoc]
  refine Issues.after_quiet (p.keeps_unwritten_stored input) (p.ends_stored input)
    (fun stored hstored => ?_) (exists_order _ p dn input)
  refine (Issues.seq (p.issues_modifyValues dn _ _) (Issues.seq (p.issues_writePassword dn .add stored)
    ((p.issues_joinAll dn input.requests).before_quiet
      fun _ => unwritten_frame.keeps_pure uid))).mono ?_
  rintro _ ⟨_, _, rfl, ⟨_, _, rfl, ⟨begun, rfl⟩, rfl⟩, rfl⟩
  exact ⟨fun _ => [], begun, stored, hstored, rfl⟩

theorem orderly_removeValues (entryClass : EntryClass) (uid : String)
    (attributes : List InputAttribute) (dir : Directory) :
    (removeValues entryClass uid attributes).Orderly p dir
      (dir.run (p.removeValues entryClass uid attributes)) := by
  unfold Provisioner.removeValues
  refine orderly_opened (fun _ _ _ => Iff.rfl) (fun dn input => ?_) dir
  refine Issues.after_quiet (p.keeps_unwritten_hashPassword input.password)
    ((p.ends_hashPassword input.password).mono (fun _ h => h) fun _ _ => trivial)
    (fun stored hstored => ?_) (exists_order _ p dn input)
  refine Issues.after_quiet (p.keeps_unwritten_planLeaving input _) (p.ends_planLeaving input _)
    (fun found hfound => ?_) (exists_order _ p dn input)
  have hleave := p.issues_leaveAll
    ((input.requests.static.groups).map fun group => ⟨dn.text, group⟩) hfound
  have hquiet : ∀ _ : Unit, Keeps Unwritten (pure uid : Provisioner.Action String) :=
    fun _ => unwritten_frame.keeps_pure uid
  have hall := Issues.seq (p.issues_modifyValues dn .delete input.ordinary)
    (Issues.seq (p.issues_writePassword dn .delete stored) (hleave.before_quiet hquiet))
  simp only [bind_assoc] at hall
  refine hall.mono ?_
  rintro _ ⟨_, _, rfl, ⟨_, _, rfl, ⟨ended, rfl⟩, rfl⟩, rfl⟩
  exact ⟨ended, fun _ => [], stored, hstored, rfl⟩

/-- A new entry is added with its password before it joins any group. -/
theorem issues_newEntry (entryClass : EntryClass) (attributes : List InputAttribute) :
    Issues p.supply .directory ((create entryClass attributes).Order p dn input) (do
      let diffs ← MembershipKind.all.mapM fun kind => do
        return (kind, ← p.joining dn (p.newAttributes entryClass (p.applyStatus input).1)
          (p.applyStatus input).2 kind)
      let stored ← p.hashPassword (← p.choosePassword input)
      Directory.add p.supply dn
        (p.withPassword (p.newAttributes entryClass (p.applyStatus input).1) stored)
      diffs.forM fun (kind, diff) => (p.descriptor kind).applyDiff p.supply diff
      p.identify entryClass dn : Provisioner.Action String) := by
  refine Issues.after_quiet (p.keeps_unwritten_joinings dn _ _)
    (p.ends_joinAll (p.ends_joining_least dn _ _)) (fun diffs hdiffs => ?_)
    (exists_order _ p dn input)
  obtain ⟨joins, rfl, hjoins⟩ := hdiffs
  rw [← bind_assoc]
  refine Issues.after_quiet (p.keeps_unwritten_stored input) (p.ends_stored input)
    (fun stored hstored => ?_) (exists_order _ p dn input)
  have hjoined := (p.issues_applyJoins fun kind => (hjoins kind).1).before_quiet
    fun _ => p.keeps_unwritten_identify entryClass dn
  refine (Issues.seq (Issues.add dn _).lift hjoined).mono ?_
  rintro _ ⟨_, _, rfl, rfl, rfl⟩
  exact ⟨fun _ => [], _, stored, hstored, rfl⟩

theorem orderly_create (entryClass : EntryClass) (attributes : List InputAttribute)
    (dir : Directory) : (create entryClass attributes).Orderly p dir
      (dir.run (p.create entryClass attributes)) := by
  unfold Provisioner.create
  cases hinput : Input.partition .create attributes with
  | error err =>
    refine ⟨[], .rest (unwritten_frame.refl dir), .inl ⟨rfl, ⟨.validation err, rfl⟩, ?_⟩⟩
    rintro dn input ⟨hsorted, -⟩
    rw [hinput] at hsorted
    cases hsorted
  | ok input =>
    simp only [Provisioner.ofInput, pure_bind]
    cases hname : input.name with
    | none =>
      refine ⟨[], .rest (unwritten_frame.refl dir), .inl ⟨rfl, ⟨_, rfl⟩, ?_⟩⟩
      rintro dn input' ⟨hsorted, hnamed⟩
      rw [hinput] at hsorted
      cases hsorted
      rw [hname] at hnamed
      cases hnamed
    | some dn =>
      simp only [pure_bind]
      obtain ⟨sent, full, hcourse, hfull, hbegins, hall⟩ := issues_newEntry entryClass attributes dir
      exact ⟨sent, hcourse, .inr ⟨dn, input, full, ⟨hinput, hname⟩, hfull, hbegins, hall⟩⟩

theorem orderly (op : Operation) (p : Provisioner) (dir : Directory) :
    op.Orderly p dir (dir.run (op.run p)) := by
  cases op with
  | create entryClass attributes => exact orderly_create entryClass attributes dir
  | update entryClass uid attributes => exact orderly_update entryClass uid attributes dir
  | addValues entryClass uid attributes => exact orderly_addValues entryClass uid attributes dir
  | removeValues entryClass uid attributes =>
    exact orderly_removeValues entryClass uid attributes dir

end Operation

/-- **The order of requests, and where it stops.** Whatever the configuration, the directory and the
input are, an operation sends its requests for changes in its order: all of them if it succeeds, and
otherwise those at the beginning. After a request that fails there is no other, and its failure is
the result; only a membership that is there already counts as done. -/
theorem run_in_order (p : Provisioner) (op : Operation) (dir : Directory) :
    ∃ sent, Course p.supply .directory dir sent (dir.run (op.run p)).1 (dir.run (op.run p)).2 ∧
      (∃ requests, (dir.run (op.run p)).2.journal = dir.journal ++ requests ∧
        requests.filter Request.isMutation = sent.map Errand.request) ∧
      ((sent = [] ∧ (∃ err, (dir.run (op.run p)).1 = .error err) ∧
          ∀ dn input, ¬ op.Concerns p dir dn input) ∨
        ∃ dn input full, op.Concerns p dir dn input ∧ op.Order p dn input full ∧ sent <+: full ∧
          ∀ uid, (dir.run (op.run p)).1 = .ok uid → sent = full) := by
  obtain ⟨sent, hcourse, hrest⟩ := op.orderly p dir
  exact ⟨sent, hcourse, hcourse.journal_eq, hrest⟩

namespace Sample

-- A group that is not there ends the update before it comes to the password.
example : modifications (((directory [(name "cn" "ann", [("cn", ["ann"])])]).run
      (provisioner.update .account "cn=ann,dc=x" [⟨"sn", [.text "Lee"]⟩,
        ⟨"ldapGroups", [.text "cn=none,dc=x"]⟩, ⟨"__PASSWORD__", [.text "secret"]⟩])).2.journal) =
    [(name "cn" "ann", [⟨.replace, "sn", ["Lee"]⟩]),
      (name "cn" "none", [⟨.add, "uniqueMember", ["cn=ann,dc=x"]⟩])] := by
  decide +kernel

end Sample

end Roster
