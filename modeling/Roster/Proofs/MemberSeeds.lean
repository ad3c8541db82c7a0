import Roster.Proofs.Creation

/-!
# First members of new groups

A directory refuses a new group whose object class requires members if it has none. A creation finds a
first member for such a group, but it decides by other rules than the directory whether one is needed
and where it goes: it compares classes as they are spelled, and it puts the member into the attribute
that the configuration has for members, whichever the class requires. `create_violates_iff` says when
the directory still refuses the group: for a class and its attribute that are `Unmet`.
-/

namespace Roster

variable {dir after : Directory}

/-! ## Failures for the object classes of an entry -/

/-- Whether an entry does not have what its object classes require. -/
def DirectoryError.isViolation : DirectoryError → Bool
  | .objectClassViolation .. => true
  | _ => false

def ProvisioningError.isViolation : ProvisioningError → Bool
  | .directory e => e.isViolation
  | _ => false

/-- No run fails for the object classes of an entry. -/
def NeverViolates {α : Type} (x : Provisioner.Action α) : Prop :=
  Ends (fun _ => True) (fun e => e.isViolation = false) x

/-- Whatever is true of the failures of each step is true of those of a sequence of steps. -/
theorem error_of_foldlM {α β ε : Type} {P : ε → Prop} {step : β → α → Except ε β}
    (hstep : ∀ b a e, step b a = .error e → P e) {xs : List α} {b : β} {e : ε}
    (h : xs.foldlM step b = .error e) : P e := by
  induction xs generalizing b with
  | nil => cases h
  | cons a xs ih =>
    rw [List.foldlM_cons] at h
    cases hfirst : step b a with
    | error e' =>
      rw [hfirst] at h
      cases h
      exact hstep b a e hfirst
    | ok b' =>
      rw [hfirst] at h
      exact ih h

theorem Attributes.isViolation_of_apply {dn : String} {attrs : Attributes} {item : Modification}
    {e : DirectoryError} (h : attrs.apply dn item = .error e) : e.isViolation = false := by
  unfold apply at h
  split at h
  · refine error_of_foldlM (P := fun e => e.isViolation = false) (fun attrs value e hvalue => ?_) h
    unfold addValue at hvalue
    split at hvalue
    · cases hvalue
      rfl
    · cases hvalue
  · split at h
    · split at h
      · cases h
      · cases h
        rfl
    · refine error_of_foldlM (P := fun e => e.isViolation = false)
        (fun attrs value e hvalue => ?_) h
      unfold deleteValue at hvalue
      split at hvalue
      · cases hvalue
      · cases hvalue
        rfl
  · cases h

namespace Directory

/-- Object classes are not checked when an entry is modified. -/
theorem ends_modify (supply : Supply) (dn : Dn) (items : List Modification) :
    Ends (fun _ => True) (fun e => e.isViolation = false) (modify supply dn items) := by
  intro dir
  unfold modify
  rw [run_perform]
  cases houtcome : afterModify supply dn items dir with
  | ok _ => trivial
  | error err =>
    unfold afterModify checkWritable at houtcome
    split at houtcome
    · cases houtcome
      rfl
    · cases hentry : dir.entry? dn with
      | none =>
        rw [hentry] at houtcome
        cases houtcome
        rfl
      | some e =>
        rw [hentry] at houtcome
        cases happly : e.attributes.applyAll dn.text items with
        | ok attrs =>
          simp only [happly] at houtcome
          cases houtcome
        | error err =>
          simp only [happly] at houtcome
          cases houtcome
          exact error_of_foldlM (fun _ _ _ => Attributes.isViolation_of_apply) happly

/-- A new entry is refused for its object classes if nothing else is in the way and one of them
requires a member that is not there. -/
theorem add_violates_iff {supply : Supply} {dn : Dn} {attrs : Attributes} :
    (∃ err after, err.isViolation = true ∧ dir.run (add supply dn attrs) = (.error err, after)) ↔
      (∀ parent, dn.parent? = some parent → parent.isIn dir.denied = false) ∧
        dir.entry? dn = none ∧ ∃ required ∈ mandatoryMembers,
          Text.holds (attrs.values "objectClass") required.1 = true ∧
            attrs.values required.2 = [] := by
  have hmissing : (∃ required ∈ mandatoryMembers,
      Text.holds (attrs.values "objectClass") required.1 = true ∧ attrs.values required.2 = []) ↔
        (missingMember? attrs).isSome = true := by
    simp only [missingMember?, List.find?_isSome, Bool.and_eq_true, List.isEmpty_iff]
  have hrun : (∃ err after, err.isViolation = true ∧
      dir.run (add supply dn attrs) = (.error err, after)) ↔
        ∃ err, err.isViolation = true ∧ afterAdd supply dn attrs dir = .error err := by
    unfold add
    rw [run_perform]
    cases afterAdd supply dn attrs dir with
    | ok _ => simp
    | error err => simp
  have hchecks : (∃ err, err.isViolation = true ∧ afterAdd supply dn attrs dir = .error err) ↔
      (∀ parent, dn.parent? = some parent → parent.isIn dir.denied = false) ∧
        (dir.entry? dn).isSome = false ∧ (missingMember? attrs).isSome = true := by
    -- The checks come one after the other, so each case is decided by the first that fails.
    unfold afterAdd checkWritable
    cases dn.parent? with
    | none =>
      cases (dir.entry? dn).isSome <;> cases missingMember? attrs <;>
        simp [bind, Except.bind, pure, Except.pure, throw, throwThe, MonadExceptOf.throw,
          DirectoryError.isViolation]
    | some parent =>
      cases hdenied : parent.isIn dir.denied <;> cases (dir.entry? dn).isSome <;>
        cases missingMember? attrs <;>
        simp [hdenied, bind, Except.bind, pure, Except.pure, throw, throwThe, MonadExceptOf.throw,
          DirectoryError.isViolation]
  rw [hmissing, hrun, hchecks, Option.isSome_eq_false_iff, Option.isNone_iff_eq_none]

end Directory

/-- A request fails an operation as it fails itself. -/
theorem Ends.neverViolates_lift {α : Type} {x : Directory.Action α}
    (h : Ends (fun _ => True) (fun e => e.isViolation = false) x) :
    NeverViolates (liftM x : Provisioner.Action α) := by
  intro dir
  have hend := h dir
  rw [Directory.run_lift]
  cases hrun : (dir.run x).1 with
  | ok _ => trivial
  | error e =>
    rw [hrun] at hend
    exact hend

/-- Joining groups is not refused for object classes. -/
theorem KindDescriptor.ends_applyDiff (d : KindDescriptor) (supply : Supply)
    (diff : Diff GroupMembership) :
    Ends (fun _ => True) (fun e => e.isViolation = false) (d.applyDiff supply diff) := by
  have hadd (m : GroupMembership) :
      Ends (fun _ => True) (fun e => e.isViolation = false) (d.addMembership supply m) := by
    intro dir
    have hmodify := Directory.ends_modify supply m.group [⟨.add, d.memberAttribute, [m.reference]⟩] dir
    unfold addMembership
    rw [Directory.run_tryCatch]
    cases hrun : dir.run (Directory.modify supply m.group
        [⟨.add, d.memberAttribute, [m.reference]⟩]) with
    | mk result mid =>
      rw [hrun] at hmodify
      cases result with
      | ok _ => trivial
      | error e =>
        dsimp only
        by_cases hexists : e.isValueExists = true
        · rw [if_pos hexists]
          trivial
        · rw [if_neg hexists]
          exact hmodify
  unfold applyDiff removeMemberships
  exact Ends.bind (Ends.forM fun m _ => Directory.ends_modify supply m.group _) fun _ _ =>
    Ends.forM fun m _ => hadd m

namespace Provisioner

theorem neverViolates_identify (p : Provisioner) (entryClass : EntryClass) (dn : Dn) :
    NeverViolates (p.identify entryClass dn) := by
  unfold identify
  split
  · exact Ends.pure trivial
  · refine Ends.bind (Ends.neverViolates_lift fun _ => trivial) fun found _ => ?_
    cases found with
    | none => exact Ends.throw rfl
    | some e =>
      dsimp only
      split
      · exact Ends.pure trivial
      · exact Ends.throw rfl

variable {p : Provisioner} {entryClass : EntryClass} {attributes : List InputAttribute}
  {input : Input} {dn : Dn} {stored : Option String}

/-! ## As far as the request for a new entry -/

/-- A creation gets as far as asking for its entry: its input is well formed and names the entry, the
references for listed groups are known, and the password can be stored. -/
structure Asks (p : Provisioner) (entryClass : EntryClass) (attributes : List InputAttribute)
    (dir : Directory) (input : Input) (dn : Dn) (stored : Option String) : Prop where
  sorted : Input.partition .create attributes = .ok input
  named : input.name = some dn
  known (kind : MembershipKind) : ((p.applyStatus input).2.get kind).groups ≠ [] →
    ∃ reference, ((p.descriptor kind).referenceValues (some dn)
      (p.newAttributes entryClass (p.applyStatus input).1)).bind canonicalReference? = some reference
  stores : p.Stores input dir.handled stored

theorem run_of_stores (h : p.Stores input dir.handled stored) :
    dir.run (p.choosePassword input >>= p.hashPassword) = (.ok stored, dir) := by
  rw [Directory.run_bind, run_choosePassword]
  unfold Stores at h
  dsimp only
  cases hchosen : p.chosenPassword input dir.handled with
  | none =>
    rw [hchosen] at h
    rw [h]
    rfl
  | some secret =>
    rw [hchosen] at h
    obtain ⟨text, htext, rfl⟩ := h
    rw [run_hashPassword, htext]
    rfl

theorem run_joining_of_known {attrs : Attributes} {requests : GroupRequests} {kind : MembershipKind}
    (h : (requests.get kind).groups ≠ [] → ∃ reference,
      ((p.descriptor kind).referenceValues (some dn) attrs).bind canonicalReference? =
        some reference) :
    ∃ joins, dir.run (do return (kind, ← p.joining dn attrs requests kind)) = (.ok joins, dir) := by
  unfold joining
  dsimp only
  by_cases hgroups : (requests.get kind).groups.isEmpty = true
  · rw [if_pos hgroups]
    exact ⟨_, rfl⟩
  · rw [if_neg hgroups]
    obtain ⟨reference, href⟩ := h fun hnil => hgroups (List.isEmpty_iff.2 hnil)
    unfold requireCanonical
    rw [href]
    exact ⟨_, rfl⟩

/-- Nothing is sent before the request for the new entry. -/
theorem run_create_of_asks (h : p.Asks entryClass attributes dir input dn stored) :
    ∃ joins : List (MembershipKind × Diff GroupMembership),
      dir.run (p.create entryClass attributes) = dir.run (do
        Directory.add p.supply dn
          (p.withPassword (p.newAttributes entryClass (p.applyStatus input).1) stored)
        joins.forM fun (kind, diff) => (p.descriptor kind).applyDiff p.supply diff
        p.identify entryClass dn : Action String) := by
  obtain ⟨joins, hjoins⟩ : ∃ joins, dir.run (MembershipKind.all.mapM fun kind => do
      return (kind, ← p.joining dn (p.newAttributes entryClass (p.applyStatus input).1)
        (p.applyStatus input).2 kind)) = (.ok joins, dir) :=
    Directory.exists_run_mapM fun kind _ => run_joining_of_known (h.known kind)
  refine ⟨joins, ?_⟩
  unfold create
  rw [h.sorted, run_ofInput_sorted, h.named, run_ofInput_sorted]
  dsimp only
  rw [Directory.run_bind, hjoins]
  dsimp only
  rw [← bind_assoc, Directory.run_bind, run_of_stores h.stores]
  rfl

/-- References that are missing are a fault of the input. -/
theorem ends_joinings_validation (p : Provisioner) (dn : Dn) (attrs : Attributes)
    (requests : GroupRequests) :
    Ends (fun _ => True) (fun e => e.isValidation = true) (MembershipKind.all.mapM fun kind => do
      return (kind, ← p.joining dn attrs requests kind)) := by
  refine Ends.mapM fun kind _ => Ends.bind (S := fun _ => True) ?_ fun _ _ => Ends.pure trivial
  unfold joining
  dsimp only
  split
  · exact Ends.pure trivial
  · refine Ends.bind (S := fun _ => True) ?_ fun _ _ => Ends.pure trivial
    unfold requireCanonical
    split
    · exact Ends.pure trivial
    · exact Ends.throw rfl

/-- A password that cannot be stored is a fault of the input. -/
theorem ends_stored_validation (p : Provisioner) (input : Input) :
    Ends (fun _ => True) (fun e => e.isValidation = true)
      (p.choosePassword input >>= p.hashPassword) := by
  refine Ends.bind ((p.ends_choosePassword input).mono (fun _ _ => trivial) fun _ => False.elim)
    fun password _ => (p.ends_hashPassword password).mono (fun _ _ => trivial) ?_
  rintro _ rfl
  rfl

/-- A creation that fails in the directory got as far as asking for its entry. -/
theorem asks_of_run {err : DirectoryError}
    (hrun : dir.run (p.create entryClass attributes) = (.error (.directory err), after)) :
    ∃ input dn stored, p.Asks entryClass attributes dir input dn stored := by
  unfold create at hrun
  cases hsorted : Input.partition .create attributes with
  | error e =>
    rw [hsorted] at hrun
    cases hrun
  | ok input =>
    rw [hsorted, run_ofInput_sorted] at hrun
    cases hnamed : input.name with
    | none =>
      rw [hnamed] at hrun
      cases hrun
    | some dn =>
      rw [hnamed, run_ofInput_sorted] at hrun
      dsimp only at hrun
      rcases Directory.run_bind_error.1 hrun with hjoins | ⟨diffs, mid, hjoins, hrest⟩
      · cases (p.ends_joinings_validation dn _ _).of_run_error hjoins
      · obtain rfl : mid = dir := (p.keeps_eq_joinings dn _ _).of_run hjoins
        obtain ⟨_, -, hknown⟩ := (p.ends_joinAll (p.ends_joining_joins dn _ _)).of_run_ok hjoins
        rw [← bind_assoc] at hrest
        rcases Directory.run_bind_error.1 hrest with hstored | ⟨stored, mid', hstored, -⟩
        · cases (p.ends_stored_validation input).of_run_error hstored
        · obtain ⟨-, hstores⟩ := stores_of_run hstored
          refine ⟨input, dn, stored, hsorted, hnamed, fun kind hgroups => ?_, hstores⟩
          obtain ⟨reference, hjoin⟩ := hknown kind
          exact ⟨reference, hjoin.canonical hgroups⟩

/-! ## Members that are missing all the same -/

/-- The object classes of a new group: its password, if it is stored there, or else those that the
input or the configuration gives. -/
def sentClasses (p : Provisioner) (ordinary : Attributes) (stored : Option String) : List String :=
  match stored with
  | some text =>
    if Text.same p.configuration.passwordAttribute "objectClass" then [text]
    else p.defaulted .group ordinary "objectClass"
  | none => p.defaulted .group ordinary "objectClass"

/-- A new group is of a class that requires members, and nothing is there for the attribute that the
class requires. -/
structure Unmet (p : Provisioner) (ordinary : Attributes) (stored : Option String)
    (required : String × String) : Prop where
  /-- The class is listed, in whatever case. -/
  listed : Text.holds (p.sentClasses ordinary stored) required.1 = true
  /-- The input gives no member. -/
  bare : ordinary.values required.2 = []
  /-- No first member is found, because no class is listed as it is spelled in the list of those that
  require members, or the attribute of the configuration has members; or it goes elsewhere. -/
  unseeded : ¬ (p.Seeds .group ordinary ∧
    Text.same p.configuration.groupMemberAttribute required.2 = true)
  /-- The password is not stored in the place of a member. -/
  unstored : ¬ (stored.isSome = true ∧ Text.same p.configuration.passwordAttribute required.2 = true)

theorem defaulted_congr (p : Provisioner) (entryClass : EntryClass) (ordinary : Attributes)
    {a b : String} (h : Text.same a b = true) :
    p.defaulted entryClass ordinary a = p.defaulted entryClass ordinary b := by
  have hget : ordinary.get? a = ordinary.get? b := AttributePairs.get?_congr (Text.same_iff.1 h) _
  rw [defaulted, hget, Text.same_right h, ← defaulted]

/-- The first member does not go to the object classes, of which there are some. -/
theorem not_seeds_objectClass {ordinary : Attributes} (h : p.Seeds entryClass ordinary) :
    ¬ Text.same p.configuration.groupMemberAttribute "objectClass" = true := by
  obtain ⟨-, ⟨c, hc, -⟩, hnone⟩ := h
  intro hsame
  rw [p.defaulted_congr entryClass ordinary hsame] at hnone
  rw [hnone] at hc
  cases hc

theorem sentClasses_eq (p : Provisioner) (ordinary : Attributes) (stored : Option String) :
    (p.withPassword (p.newAttributes .group ordinary) stored).values "objectClass" =
      p.sentClasses ordinary stored := by
  have hnew : (p.newAttributes .group ordinary).values "objectClass" =
      p.defaulted .group ordinary "objectClass" := by
    rw [values_newAttributes_of_ordinary]
    exact if_neg fun both => not_seeds_objectClass both.1 both.2
  unfold withPassword sentClasses
  cases stored with
  | none => exact hnew
  | some text =>
    rw [Attributes.values_put, hnew]

theorem values_sent_eq_nil {ordinary : Attributes} {name : String}
    (hclass : ¬ Text.same "objectClass" name = true) :
    (p.withPassword (p.newAttributes .group ordinary) stored).values name = [] ↔
      ordinary.values name = [] ∧
        ¬ (p.Seeds .group ordinary ∧ Text.same p.configuration.groupMemberAttribute name = true) ∧
        ¬ (stored.isSome = true ∧ Text.same p.configuration.passwordAttribute name = true) := by
  have hnew : (p.newAttributes .group ordinary).values name = [] ↔ ordinary.values name = [] ∧
      ¬ (p.Seeds .group ordinary ∧
        Text.same p.configuration.groupMemberAttribute name = true) := by
    have hdefaulted : p.defaulted .group ordinary name = ordinary.values name := by
      rw [defaulted, Attributes.values, if_neg hclass]
      cases ordinary.get? name <;> rfl
    rw [values_newAttributes_of_ordinary, hdefaulted]
    split
    · next hseeds => simp [hseeds]
    · next hseeds => exact ⟨fun hnil => ⟨hnil, hseeds⟩, fun both => both.1⟩
  unfold withPassword
  cases stored with
  | none => simp [hnew]
  | some text =>
    rw [Attributes.values_put]
    split
    · next hpassword => simp [hpassword]
    · next hpassword => simp [hnew, hpassword]

theorem unmet_iff {ordinary : Attributes} {required : String × String}
    (hrequired : required ∈ Directory.mandatoryMembers) :
    Text.holds ((p.withPassword (p.newAttributes .group ordinary) stored).values "objectClass")
        required.1 = true ∧
      (p.withPassword (p.newAttributes .group ordinary) stored).values required.2 = [] ↔
        p.Unmet ordinary stored required := by
  have hclass : ∀ required ∈ Directory.mandatoryMembers,
      ¬ Text.same "objectClass" required.2 = true := by decide
  rw [sentClasses_eq, values_sent_eq_nil (hclass required hrequired)]
  exact ⟨fun ⟨hlisted, hbare, hunseeded, hunstored⟩ => ⟨hlisted, hbare, hunseeded, hunstored⟩,
    fun h => ⟨h.listed, h.bare, h.unseeded, h.unstored⟩⟩

/-- **A new group is refused for its object classes** if and only if the creation gets as far as
asking for it, its name is free below a writable parent, and for one of the classes that require
members nothing is there. -/
theorem create_violates_iff (p : Provisioner) (attributes : List InputAttribute) (dir : Directory) :
    (∃ err after, err.isViolation = true ∧
      dir.run (p.create .group attributes) = (.error err, after)) ↔
      ∃ input dn stored, p.Asks .group attributes dir input dn stored ∧
        (∀ parent, dn.parent? = some parent → parent.isIn dir.denied = false) ∧
        dir.entry? dn = none ∧
        ∃ required ∈ Directory.mandatoryMembers,
          p.Unmet (p.applyStatus input).1 stored required := by
  constructor
  · rintro ⟨err, after, hviolation, hrun⟩
    cases err with
    | validation | referentialIntegrity | configuration => cases hviolation
    | directory err =>
      obtain ⟨input, dn, stored, hasks⟩ := asks_of_run hrun
      obtain ⟨joins, hcreate⟩ := run_create_of_asks hasks
      rw [hcreate] at hrun
      rcases Directory.run_bind_error.1 hrun with hadd | ⟨_, mid, -, hrest⟩
      · have hviolates := Directory.add_violates_iff.1
          ⟨err, after, hviolation, Directory.run_lift_error hadd⟩
        obtain ⟨hwritable, hfree, required, hrequired, hmissing⟩ := hviolates
        exact ⟨input, dn, stored, hasks, hwritable, hfree, required, hrequired,
          (unmet_iff hrequired).1 hmissing⟩
      · -- What comes after the entry is there does not look at object classes.
        have hlater : NeverViolates (do
            joins.forM fun (kind, diff) => (p.descriptor kind).applyDiff p.supply diff
            p.identify .group dn : Action String) :=
          Ends.bind (Ends.forM fun joining _ =>
            ((p.descriptor joining.1).ends_applyDiff p.supply joining.2).neverViolates_lift)
            fun _ _ => p.neverViolates_identify .group dn
        rw [hlater.of_run_error hrest] at hviolation
        cases hviolation
  · rintro ⟨input, dn, stored, hasks, hwritable, hfree, required, hrequired, hunmet⟩
    obtain ⟨err, after, hviolation, hadd⟩ := Directory.add_violates_iff.2
      ⟨hwritable, hfree, required, hrequired, (unmet_iff hrequired).2 hunmet⟩
    obtain ⟨joins, hcreate⟩ := run_create_of_asks hasks
    refine ⟨.directory err, after, hviolation, ?_⟩
    rw [hcreate, Directory.run_bind, Directory.run_lift, hadd]
    rfl

end Provisioner

namespace Sample

/-- A provisioner with a principal, and otherwise the usual attributes. -/
def withPrincipal : Provisioner :=
  { provisioner with configuration := { provisioner.configuration with principal := "cn=admin,dc=x" } }

/-- The input for a group of some class, without members. -/
def teamOf (objectClass : String) : List InputAttribute :=
  [⟨"__NAME__", [.text "cn=team,dc=x"]⟩, ⟨"objectClass", [.text objectClass]⟩]

/-- A class that is listed in another case gets no first member, and one whose members are not in the
attribute of the configuration does not get it where it must be. -/
theorem team_refused :
    withPrincipal.configuration.check = .ok () ∧
      (Directory.empty.run (withPrincipal.create .group (teamOf "groupOfUniqueNames"))).1 =
        .ok "cn=team,dc=x" ∧
      (Directory.empty.run (withPrincipal.create .group (teamOf "groupofuniquenames"))).1 =
        .error (.directory (.objectClassViolation "cn=team,dc=x"
          "object class 'groupOfUniqueNames' requires attribute 'uniqueMember'")) ∧
      (Directory.empty.run (withPrincipal.create .group (teamOf "groupOfNames"))).1 =
        .error (.directory (.objectClassViolation "cn=team,dc=x"
          "object class 'groupOfNames' requires attribute 'member'")) := by
  decide +kernel

end Sample

end Roster
